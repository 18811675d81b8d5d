import DiceTome.Outcome
import Mathlib.Algebra.Order.BigOperators.Group.List
import Mathlib.Data.List.Nodup
import Mathlib.Tactic.Linarith

/-!
# Kept faces

A keep takes the smallest face away again and again, the earliest one where faces are equal, so that
the positions of the others shift with every face that goes. What is left can be told at once: it is
the faces at all positions but the first ones in the order of the faces, where equal faces are in
the order of their positions.

* `ranking` are the faces with their positions in that order.
* `dropSmallest_map_fst`: taking smallest faces away drops the first ones of the ranking.
* `excess` measures faces above a threshold; `sum_le_of_parts` compares sums by it.
* `keepHighest_selects`: what a keep leaves of some faces, and that two keeps make one.
-/

namespace DiceTome

/-! ## The order of faces at positions -/

/-- Whether the first face at its position is in front of the second one, or is the same: lower
faces come first, and of equal faces the earlier one. -/
def inFront (p q : Int × Nat) : Bool :=
  decide (p.1 < q.1 ∨ p.1 = q.1 ∧ p.2 ≤ q.2)

/-- The faces with their positions, from the lowest face to the highest, and equal faces from left
to right. -/
def ranking (faces : List Int) : List (Int × Nat) :=
  faces.zipIdx.mergeSort inFront

theorem inFront_iff {p q : Int × Nat} :
    inFront p q = true ↔ p.1 < q.1 ∨ p.1 = q.1 ∧ p.2 ≤ q.2 := by
  rw [inFront, decide_eq_true_iff]

theorem le_of_inFront {p q : Int × Nat} (h : inFront p q = true) : p.1 ≤ q.1 := by
  rcases inFront_iff.mp h with hlt | ⟨heq, -⟩
  · exact hlt.le
  · exact heq.le

theorem perm_ranking (faces : List Int) : (ranking faces).Perm faces.zipIdx :=
  List.mergeSort_perm _ _

theorem pairwise_ranking (faces : List Int) :
    (ranking faces).Pairwise fun p q => inFront p q = true := by
  refine List.pairwise_mergeSort ?_ ?_ _
  · intro p q r
    simp only [inFront_iff]
    omega
  · intro p q
    simp only [Bool.or_eq_true, inFront_iff]
    omega

/-- The positions of a list ascend. -/
theorem pairwise_zipIdx (faces : List Int) :
    faces.zipIdx.Pairwise fun p q => p.2 < q.2 := by
  rw [← List.pairwise_map (f := Prod.snd) (R := (· < ·)), List.zipIdx_map_snd]
  exact List.pairwise_lt_range' 1

/-! ## Taking the smallest faces away -/

/-- The first of some equal faces goes. -/
theorem erase_map_fst {ps : List (Int × Nat)} {p : Int × Nat}
    (hps : ps.Pairwise fun p q => p.2 < q.2) (hp : p ∈ ps)
    (hfirst : ∀ q ∈ ps, q.1 = p.1 → p.2 ≤ q.2) :
    (ps.map Prod.fst).erase p.1 = (ps.erase p).map Prod.fst := by
  induction ps with
  | nil => cases hp
  | cons q qs ih =>
    by_cases hq : q = p
    · subst hq
      rw [List.map_cons, List.erase_cons_head, List.erase_cons_head]
    · have hmem : p ∈ qs := List.mem_of_ne_of_mem (Ne.symm hq) hp
      have hface : q.1 ≠ p.1 := by
        intro heq
        have hle := hfirst q List.mem_cons_self heq
        have hlt := List.rel_of_pairwise_cons hps hmem
        omega
      rw [List.map_cons, List.erase_cons_tail (by simpa using hface),
        List.erase_cons_tail (by simpa using hq), List.map_cons,
        ih hps.of_cons hmem fun r hr => hfirst r (List.mem_cons_of_mem _ hr)]

/-- The smallest face goes, and of some smallest faces the first one. -/
theorem eraseSmallest_map_fst {ps : List (Int × Nat)} {p : Int × Nat}
    (hps : ps.Pairwise fun p q => p.2 < q.2) (hp : p ∈ ps)
    (hleast : ∀ q ∈ ps, inFront p q = true) :
    eraseSmallest (ps.map Prod.fst) = (ps.erase p).map Prod.fst := by
  have hmin : (ps.map Prod.fst).min? = some p.1 := by
    refine List.min?_eq_some_iff.mpr ⟨List.mem_map_of_mem hp, fun face hface => ?_⟩
    obtain ⟨q, hq, rfl⟩ := List.mem_map.mp hface
    exact le_of_inFront (hleast q hq)
  have hfirst : ∀ q ∈ ps, q.1 = p.1 → p.2 ≤ q.2 := by
    intro q hq heq
    rcases inFront_iff.mp (hleast q hq) with hlt | ⟨-, hle⟩
    · omega
    · exact hle
  rw [eraseSmallest, hmin]
  exact erase_map_fst hps hp hfirst

/-- Faces that are taken away one by one are the first ones in the order of faces and positions. -/
theorem dropSmallest_map_fst (n : Nat) {ps ranked : List (Int × Nat)}
    (hps : ps.Pairwise fun p q => p.2 < q.2) (hperm : ranked.Perm ps)
    (hranked : ranked.Pairwise fun p q => inFront p q = true) :
    dropSmallest n (ps.map Prod.fst) = (ps.filter (· ∉ ranked.take n)).map Prod.fst := by
  induction n generalizing ps ranked with
  | zero => simp [dropSmallest]
  | succ n ih =>
    cases ranked with
    | nil =>
      obtain rfl := hperm.nil_eq
      exact ih hps hperm hranked
    | cons p ranked =>
      have hp : p ∈ ps := hperm.subset List.mem_cons_self
      have hleast : ∀ q ∈ ps, inFront p q = true := by
        intro q hq
        rcases List.mem_cons.mp (hperm.symm.subset hq) with rfl | hq
        · exact inFront_iff.mpr (.inr ⟨rfl, Nat.le_refl _⟩)
        · exact List.rel_of_pairwise_cons hranked hq
      have hnodup : ps.Nodup := hps.imp fun hlt heq => absurd hlt (by rw [heq]; exact lt_irrefl _)
      have hrest : ranked.Perm (ps.erase p) := (hperm.trans (List.perm_cons_erase hp)).cons_inv
      rw [dropSmallest, eraseSmallest_map_fst hps hp hleast,
        ih (hps.sublist List.erase_sublist) hrest hranked.of_cons, hnodup.erase_eq_filter,
        List.filter_filter]
      congr 1
      refine List.filter_congr fun q _ => ?_
      rw [Bool.eq_iff_iff]
      simp [List.take_succ_cons, and_comm]

theorem eraseSmallest_sublist (faces : List Int) : (eraseSmallest faces).Sublist faces := by
  unfold eraseSmallest
  split
  · exact List.nil_sublist _
  · exact List.erase_sublist

theorem length_eraseSmallest (faces : List Int) :
    (eraseSmallest faces).length = faces.length - 1 := by
  unfold eraseSmallest
  split
  next hnone => rw [List.min?_eq_none_iff.mp hnone, List.length_nil]
  next least hleast => exact List.length_erase_of_mem (List.min?_mem hleast)

theorem dropSmallest_sublist (n : Nat) (faces : List Int) :
    (dropSmallest n faces).Sublist faces := by
  induction n generalizing faces with
  | zero => exact List.Sublist.refl _
  | succ n ih => exact (ih _).trans (eraseSmallest_sublist faces)

theorem length_dropSmallest (n : Nat) (faces : List Int) :
    (dropSmallest n faces).length = faces.length - n := by
  induction n generalizing faces with
  | zero => rfl
  | succ n ih =>
    rw [dropSmallest, ih, length_eraseSmallest]
    omega

/-- Faces that are taken away in two turns are taken away in one. -/
theorem dropSmallest_add (m n : Nat) (faces : List Int) :
    dropSmallest (m + n) faces = dropSmallest n (dropSmallest m faces) := by
  induction m generalizing faces with
  | zero => rw [Nat.zero_add, dropSmallest]
  | succ m ih => rw [Nat.succ_add, dropSmallest, dropSmallest, ih]

/-! ## Sums of faces -/

/-- By how much the faces that are above a threshold are above it, all together. -/
def excess (threshold : Int) (faces : List Int) : Int :=
  (faces.map fun face => max (face - threshold) 0).sum

theorem sum_le_excess (threshold : Int) (faces : List Int) :
    faces.sum ≤ excess threshold faces + faces.length * threshold := by
  induction faces with
  | nil => simp [excess]
  | cons face faces ih =>
    have hface := le_max_left (face - threshold) 0
    simp only [excess, List.map_cons, List.sum_cons, List.length_cons] at ih ⊢
    push_cast
    linarith

theorem excess_of_le {threshold : Int} {faces : List Int}
    (h : ∀ face ∈ faces, threshold ≤ face) :
    excess threshold faces + faces.length * threshold = faces.sum := by
  induction faces with
  | nil => simp [excess]
  | cons face faces ih =>
    rw [List.forall_mem_cons] at h
    have hface : max (face - threshold) 0 = face - threshold := max_eq_left (by linarith [h.1])
    have hfaces := ih h.2
    simp only [excess, List.map_cons, List.sum_cons, List.length_cons, hface] at hfaces ⊢
    push_cast
    linarith

theorem excess_of_ge {threshold : Int} {faces : List Int}
    (h : ∀ face ∈ faces, face ≤ threshold) : excess threshold faces = 0 := by
  refine List.sum_eq_zero fun x hx => ?_
  obtain ⟨face, hface, rfl⟩ := List.mem_map.mp hx
  exact max_eq_right (by linarith [h face hface])

/-- If no dropped face is above a kept one, then no faces of the same number sum up to more than the
kept ones. -/
theorem sum_le_of_parts {kept dropped faces chosen : List Int}
    (hparts : (kept ++ dropped).Perm faces) (hle : ∀ x ∈ dropped, ∀ y ∈ kept, x ≤ y)
    (hchosen : chosen.Sublist faces) (hlength : chosen.length = kept.length) :
    chosen.sum ≤ kept.sum := by
  cases hleast : kept.min? with
  | none =>
    obtain rfl := List.min?_eq_none_iff.mp hleast
    rw [List.length_eq_zero_iff.mp hlength]
  | some threshold =>
    -- The least kept face is a threshold: no dropped face is above it.
    obtain ⟨hmem, hkept⟩ := List.min?_eq_some_iff.mp hleast
    have hfaces : excess threshold faces = excess threshold kept := by
      rw [excess, ← (hparts.map _).sum_eq, List.map_append, List.sum_append]
      exact add_eq_left.mpr (excess_of_ge fun x hx => hle x hx threshold hmem)
    have hexcess : excess threshold chosen ≤ excess threshold faces := by
      refine (hchosen.map _).sum_le_sum fun x hx => ?_
      obtain ⟨face, -, rfl⟩ := List.mem_map.mp hx
      exact le_max_right _ _
    calc chosen.sum ≤ excess threshold chosen + chosen.length * threshold := sum_le_excess _ _
      _ ≤ excess threshold kept + kept.length * threshold := by
        rw [hlength]
        linarith
      _ = kept.sum := excess_of_le hkept

/-! ## Keeps -/

/-- The faces that a keep drops, with their positions: the first ones of the ranking, so many that
`count` faces remain. -/
def droppedFaces (faces : List Int) (count : Int) : List (Int × Nat) :=
  (ranking faces).take ((faces.length : Int) - max count 0).toNat

theorem keepHighest_eq_filter (faces : List Int) (count : Int) :
    keepHighest faces count =
      (faces.zipIdx.filter (· ∉ droppedFaces faces count)).map Prod.fst := by
  have hdrop := dropSmallest_map_fst ((faces.length : Int) - max count 0).toNat
    (pairwise_zipIdx faces) (perm_ranking faces) (pairwise_ranking faces)
  have hnumber : faces.length - (max count 0).toNat =
      ((faces.length : Int) - max count 0).toNat := by omega
  rw [List.zipIdx_map_fst] at hdrop
  rw [keepHighest, hnumber, hdrop, droppedFaces]

theorem length_keepHighest (faces : List Int) (count : Int) :
    ((keepHighest faces count).length : Int) = min (faces.length : Int) (max count 0) := by
  rw [keepHighest, length_dropSmallest]
  omega

/-- No dropped face is above one that is kept. -/
theorem le_of_mem_droppedFaces {faces : List Int} {count : Int} {p q : Int × Nat}
    (hp : p ∈ droppedFaces faces count) (hq : q ∈ faces.zipIdx)
    (hkept : q ∉ droppedFaces faces count) : p.1 ≤ q.1 := by
  have hranked := pairwise_ranking faces
  have hmem := (perm_ranking faces).symm.subset hq
  rw [← List.take_append_drop ((faces.length : Int) - max count 0).toNat (ranking faces)]
    at hranked hmem
  have hbehind := (List.mem_append.mp hmem).resolve_left hkept
  exact le_of_inFront ((List.pairwise_append.mp hranked).2.2 p hp q hbehind)

/-- No other faces of the same number sum up to more than the kept ones. -/
theorem sum_le_keepHighest {faces chosen : List Int} {count : Int} (hchosen : chosen.Sublist faces)
    (hlength : chosen.length = (keepHighest faces count).length) :
    chosen.sum ≤ (keepHighest faces count).sum := by
  rw [keepHighest_eq_filter] at hlength ⊢
  have hparts := (List.filter_append_perm
    (fun p => decide (p ∉ droppedFaces faces count)) faces.zipIdx).map Prod.fst
  rw [List.map_append, List.zipIdx_map_fst] at hparts
  refine sum_le_of_parts hparts (fun x hx y hy => ?_) hchosen hlength
  obtain ⟨p, hp, rfl⟩ := List.mem_map.mp hx
  obtain ⟨q, hq, rfl⟩ := List.mem_map.mp hy
  simp only [List.mem_filter, Bool.not_eq_true', decide_eq_false_iff_not, not_not,
    decide_eq_true_eq] at hp hq
  exact le_of_mem_droppedFaces hp.2 hq.1 hq.2

/-- Two keeps are a keep of the smaller count. -/
theorem keepHighest_keepHighest (faces : List Int) (m n : Int) :
    keepHighest (keepHighest faces m) n = keepHighest faces (min m n) := by
  rw [keepHighest, keepHighest, keepHighest, length_dropSmallest, ← dropSmallest_add]
  congr 1
  omega

/-- A keep leaves the faces at all positions but the first ones in the order of faces and
positions. They stay in their order, none of the dropped ones is above one of them, and no faces of
their number sum up to more. A keep of what a keep has left is a keep of the smaller count. -/
theorem keepHighest_selects (faces : List Int) (count : Int) :
    keepHighest faces count =
      (faces.zipIdx.filter (· ∉ droppedFaces faces count)).map Prod.fst ∧
    (keepHighest faces count).Sublist faces ∧
    ((keepHighest faces count).length : Int) = min (faces.length : Int) (max count 0) ∧
    (∀ p ∈ droppedFaces faces count, ∀ q ∈ faces.zipIdx, q ∉ droppedFaces faces count →
      p.1 ≤ q.1) ∧
    (∀ chosen : List Int, chosen.Sublist faces →
      chosen.length = (keepHighest faces count).length →
        chosen.sum ≤ (keepHighest faces count).sum) ∧
    ∀ m n : Int, keepHighest (keepHighest faces m) n = keepHighest faces (min m n) :=
  ⟨keepHighest_eq_filter faces count, dropSmallest_sublist _ _, length_keepHighest faces count,
    fun _ hp _ hq hkept => le_of_mem_droppedFaces hp hq hkept,
    fun _ hchosen hlength => sum_le_keepHighest hchosen hlength, keepHighest_keepHighest faces⟩

/-- Of equal faces the earlier goes. -/
example : keepHighest [2, 3, 2] 2 = [3, 2] := by decide

end DiceTome

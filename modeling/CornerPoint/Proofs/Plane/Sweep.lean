import Mathlib
import CornerPoint.Proofs.Plane.Hull

/-!
# Points in the order of their directions

Points are sorted by the direction in which their mean sees them. The sort is an ordinary stable
one, but it gets its keys from the very list it sorts: another list of points would have another
mean, and all directions would be others. What saves the day is that the mean does not depend on
the order of the points (`Point.mean_perm`):

> `sort_sort`: sorted points stay as they are when they are sorted again.
> `sort_eq_of_perm`: points in pairwise different directions are sorted in one way, in whatever
> order they are given.
> `sort_stable`: sorting is a permutation by angles, points with the same angle keep their order,
> and both of the above hold.

Of angles nothing is used but that they are totally preordered. Two of them count as the same if
each is met no later than the other (`tied`); if the order of angles is a linear one, they are
equal then.
-/

namespace CornerPoint

namespace Sweep

open Point (mean)

/-! ## Angles that are met together -/

section Tied

variable {K : Type} (s : Sweep K)

/-- Neither angle is met before the other. -/
def tied (a b : s.Angle) : Bool := s.le a b && s.le b a

variable {s} {a b c : s.Angle}

theorem tied_iff : s.tied a b = true ↔ s.le a b = true ∧ s.le b a = true := Bool.and_eq_true_iff

/-- Tied is mutual. -/
theorem tied_comm (a b : s.Angle) : s.tied a b = s.tied b a := Bool.and_comm _ _

/-- Of two angles that are tied to a third one, either is met no later than the other. -/
theorem le_of_tied (ha : s.tied a c = true) (hb : s.tied b c = true) : s.le a b = true :=
  s.le_trans a c b (tied_iff.mp ha).1 (tied_iff.mp hb).2

end Tied

/-! ## The sorted list -/

section Sorted

variable (s : Sweep ℚ) {ps qs : List (Point ℚ)}

/-- Directions from a center are ordered, so the points around it are. -/
theorem before_trans (center p q r : Point ℚ) (hpq : s.before center p q = true)
    (hqr : s.before center q r = true) : s.before center p r = true :=
  s.le_trans _ _ _ hpq hqr

theorem before_total (center p q : Point ℚ) :
    (s.before center p q || s.before center q p) = true :=
  s.le_total _ _

/-- Points are sorted around their mean, no points around nothing. -/
theorem sort_eq_mergeSort (ps : List (Point ℚ)) :
    s.sort ps = ps.mergeSort (s.before (mean ps)) := by
  cases ps with
  | nil => exact List.mergeSort_nil.symm
  | cons p ps =>
    unfold sort
    rw [Point.mean?_eq_some (List.cons_ne_nil p ps)]

theorem sort_sorted (ps : List (Point ℚ)) :
    (s.sort ps).Pairwise fun u v => s.before (mean ps) u v = true := by
  rw [sort_eq_mergeSort]
  exact List.pairwise_mergeSort (s.before_trans _) (s.before_total _) ps

/-- The points that `center` sees at the angle `a`, in their order. -/
def seenAt (center : Point ℚ) (a : s.Angle) (ps : List (Point ℚ)) : List (Point ℚ) :=
  ps.filter fun p => s.tied (s.angleFrom center p) a

/-- **The sort is stable.** Points that are seen at one angle are in order as they stand, and
a sublist that is in order is not torn apart. -/
theorem seenAt_sort (a : s.Angle) (ps : List (Point ℚ)) :
    s.seenAt (mean ps) a (s.sort ps) = s.seenAt (mean ps) a ps := by
  have hordered : (s.seenAt (mean ps) a ps).Pairwise fun u v => s.before (mean ps) u v = true :=
    List.pairwise_of_forall_mem_list fun u hu v hv =>
      le_of_tied (List.mem_filter.mp hu).2 (List.mem_filter.mp hv).2
  have hkept : (s.seenAt (mean ps) a ps).Sublist (s.sort ps) := by
    rw [sort_eq_mergeSort]
    exact List.sublist_mergeSort (s.before_trans _) (s.before_total _) hordered
      List.filter_sublist
  have hsub : (s.seenAt (mean ps) a ps).Sublist (s.seenAt (mean ps) a (s.sort ps)) := by
    have h := hkept.filter fun p => s.tied (s.angleFrom (mean ps) p) a
    rw [seenAt, List.filter_filter] at h
    simp only [Bool.and_self] at h
    exact h
  exact (hsub.eq_of_length ((s.sort_perm ps).filter _).length_eq.symm).symm

/-- **Sorting again changes nothing,** as the mean is the same. -/
theorem sort_sort (ps : List (Point ℚ)) : s.sort (s.sort ps) = s.sort ps := by
  rw [sort_eq_mergeSort s (s.sort ps), Point.mean_perm (s.sort_perm ps)]
  exact List.mergeSort_of_pairwise (s.sort_sorted ps)

/-- The mean sees no two of the points at the same angle. -/
def TellsApart (ps : List (Point ℚ)) : Prop :=
  ps.Pairwise fun u v => s.tied (s.angleFrom (mean ps) u) (s.angleFrom (mean ps) v) = false

/-- **Points at pairwise different angles are sorted in one way only.** Of two orders in which
they are sorted, neither can have two points the other way round. -/
theorem sort_eq_of_perm (hperm : qs.Perm ps) (hangles : s.TellsApart ps) :
    s.sort qs = s.sort ps := by
  have hsorted : (s.sort qs).Pairwise fun u v => s.before (mean ps) u v = true := by
    rw [← Point.mean_perm hperm]
    exact s.sort_sorted qs
  have hsame : (s.sort qs).Perm (s.sort ps) :=
    (s.sort_perm qs).trans (hperm.trans (s.sort_perm ps).symm)
  refine List.Perm.eq_of_pairwise (fun u v hu hv huv hvu => ?_) hsorted (s.sort_sorted ps) hsame
  by_contra hne
  have hsymm : Std.Symm fun u v => s.tied (s.angleFrom (mean ps) u) (s.angleFrom (mean ps) v)
      = false := ⟨fun u v h => (tied_comm ..).trans h⟩
  have hmem : u ∈ ps := hperm.mem_iff.mp ((s.sort_perm qs).mem_iff.mp hu)
  have hmem' : v ∈ ps := (s.sort_perm ps).mem_iff.mp hv
  have hapart := List.Pairwise.forall hangles hmem hmem' hne
  exact absurd (tied_iff.mpr ⟨huv, hvu⟩) (Bool.eq_false_iff.mp hapart)

/-- **Sorting by direction is a stable permutation.** The sorted points are the given ones, as
often as they are given; their angles around their mean never decrease, and those at one angle
stand in the order in which they were given. Sorting again changes nothing, and if all angles are
different the order in which the points are given does not matter. -/
theorem sort_stable (ps : List (Point ℚ)) :
    (s.sort ps).Perm ps ∧
      ((s.sort ps).Pairwise fun u v =>
        s.le (s.angleFrom (mean ps) u) (s.angleFrom (mean ps) v) = true) ∧
      (∀ a, s.seenAt (mean ps) a (s.sort ps) = s.seenAt (mean ps) a ps) ∧
      s.sort (s.sort ps) = s.sort ps ∧
      ∀ qs, qs.Perm ps → s.TellsApart ps → s.sort qs = s.sort ps :=
  ⟨s.sort_perm ps, s.sort_sorted ps, fun a => s.seenAt_sort a ps, s.sort_sort ps,
    fun _ => s.sort_eq_of_perm⟩

end Sorted

/-- Four points around a mean that is none of them. -/
def kite : List (Point ℚ) := [⟨2, 3⟩, ⟨0, 1⟩, ⟨2, 0⟩, ⟨4, 1⟩]

/-- No two corners of the kite are seen from its mean in one direction. -/
theorem kite_tellsApart : diamond.TellsApart kite := by
  unfold TellsApart
  decide +kernel

/-- The points are given in the opposite order and sorted into the same. -/
theorem sort_stable_kite : kite.reverse.Perm kite ∧ diamond.TellsApart kite ∧
    diamond.sort kite.reverse = diamond.sort kite ∧
    diamond.sort kite = [⟨0, 1⟩, ⟨2, 0⟩, ⟨4, 1⟩, ⟨2, 3⟩] := by
  obtain ⟨_, _, _, _, horder⟩ := diamond.sort_stable kite
  exact ⟨List.reverse_perm kite, kite_tellsApart,
    horder kite.reverse (List.reverse_perm kite) kite_tellsApart, by cbv⟩

-- the first two points are in one direction from the mean
example : diamond.sort [⟨6, 0⟩, ⟨4, 0⟩, ⟨0, 0⟩] = [⟨6, 0⟩, ⟨4, 0⟩, ⟨0, 0⟩] := by cbv

end Sweep

end CornerPoint

import BinaryImage.Layout.Region
import BinaryImage.Proofs.Machine.Basic
import BinaryImage.Proofs.Sorting

/-!
The search for overlapping regions on a machine. It looks at the regions behind each one by their
place in the sorted list, where the plain search goes down the list itself.
-/

namespace BinaryImage.Machine

open Layout

def conflict (space : Space) (pair : Region × Region) : Error :=
  .violation pair.2.entity pair.2.span.start
    (.overlaps space pair.2.span pair.1.entity pair.1.span)

def checkBehind (space : Space) (excused : Region → Region → Bool) (sorted : List Region)
    (region : Region) (index : Nat) : Machine Error Unit := do
  let next ← add index 1
  let behind ← slice sorted next sorted.length
  let reached := behind.takeWhile fun later => later.span.start < region.span.clippedStop
  reached.forM fun later =>
    if excused region later then pure () else throw (conflict space (region, later))

def checkRegions (space : Space) (excused : Region → Region → Bool) (regions : List Region) :
    Machine Error Unit :=
  let filled := regions.filter fun region => !region.span.isEmpty
  let sorted := sortOn (fun region => region.span.start) filled
  sorted.zipIdx.forM fun (region, index) => checkBehind space excused sorted region index

variable (space : Space) (excused : Region → Region → Bool)

theorem check_disjoint_eq_refusal (regions : List Region) :
    checkDisjoint space excused regions =
      refusal (conflict space) (firstConflict? excused
        (sortOn (fun region => region.span.start)
          (regions.filter fun region => !region.span.isEmpty))) := by
  unfold checkDisjoint
  simp only
  generalize firstConflict? _ _ = found
  cases found <;> rfl

theorem gives_check_behind {sorted front behind : List Region} {region : Region}
    (split : sorted = front ++ region :: behind) (small : sorted.length < offsetLimit) :
    Gives (checkBehind space excused sorted region front.length)
      (refusal (fun later => conflict space (region, later))
        ((behind.takeWhile fun later => later.span.start < region.span.clippedStop).find?
          fun later => !excused region later)) := by
  have inside : front.length + 1 ≤ sorted.length := by
    rw [split, List.length_append, List.length_cons]
    omega
  have rest : sorted.drop (front.length + 1) = behind := by
    rw [split, List.drop_append]
    simp
  apply gives_ok_bind (gives_add (by omega))
  apply gives_ok_bind (gives_slice_from inside)
  rw [rest]
  apply gives_search
  intro later _
  cases excused region later with
  | true => exact gives_pure _
  | false => exact gives_throw _

/-- What is left of the sweep finds the first conflict of what is left of the list. -/
theorem gives_sweep {sorted : List Region} (small : sorted.length < offsetLimit)
    (front behind : List Region) (split : sorted = front ++ behind) :
    Gives ((behind.zipIdx front.length).forM fun (region, index) =>
        checkBehind space excused sorted region index)
      (refusal (conflict space) (firstConflict? excused behind)) := by
  induction behind generalizing front with
  | nil => exact gives_pure ()
  | cons region rest ih =>
    have here := gives_check_behind space excused split small
    have later := ih (front ++ [region]) (by rw [split, List.append_assoc]; rfl)
    rw [List.length_append, List.length_singleton] at later
    rw [List.zipIdx_cons, firstConflict?]
    generalize List.find? _ _ = found at here ⊢
    cases found with
    | some conflicting => exact gives_error_bind _ here
    | none => exact gives_ok_bind here later

theorem gives_check_regions {regions : List Region} (small : regions.length < offsetLimit) :
    Gives (checkRegions space excused regions) (checkDisjoint space excused regions) := by
  let filled := regions.filter fun region => !region.span.isEmpty
  let sorted := sortOn (fun region : Region => region.span.start) filled
  have length : sorted.length < offsetLimit := by
    rw [(sort_on_perm _ filled).length_eq]
    exact Nat.lt_of_le_of_lt (List.length_filter_le _ _) small
  rw [check_disjoint_eq_refusal]
  exact gives_sweep space excused length [] sorted rfl

end BinaryImage.Machine

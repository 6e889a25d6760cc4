/-!
# Walks that never visit a place twice

A walk over finitely many places that keeps a list of the places seen ends, because the number of
places not yet seen goes down with every step.
-/

namespace AliasScript

variable {α : Type} [DecidableEq α]

/-- How many of the places have not been seen. -/
def unseen (places seen : List α) : Nat :=
  match places with
  | [] => 0
  | x :: rest => (if x ∈ seen then 0 else 1) + unseen rest seen

theorem unseen_le (places : List α) {seen more : List α} (grows : ∀ x ∈ seen, x ∈ more) :
    unseen places more ≤ unseen places seen := by
  induction places with
  | nil => exact Nat.le_refl _
  | cons x rest ih =>
    rw [unseen, unseen]
    by_cases old : x ∈ seen
    · rw [if_pos old, if_pos (grows x old)]
      omega
    · rw [if_neg old]
      split <;> omega

theorem unseen_lt {places seen more : List α} {x : α} (grows : ∀ y ∈ seen, y ∈ more)
    (place : x ∈ places) (new : x ∉ seen) (taken : x ∈ more) :
    unseen places more < unseen places seen := by
  induction places with
  | nil => cases place
  | cons y rest ih =>
    have le := unseen_le rest grows
    rw [unseen, unseen]
    rcases List.mem_cons.1 place with rfl | place
    · rw [if_neg new, if_pos taken]
      omega
    · have lt := ih place
      by_cases old : y ∈ seen
      · rw [if_pos old, if_pos (grows y old)]
        omega
      · rw [if_neg old]
        split <;> omega

theorem unseen_cons_lt {places seen : List α} {x : α} (place : x ∈ places) (new : x ∉ seen) :
    unseen places (x :: seen) < unseen places seen :=
  unseen_lt (fun _ => List.mem_cons_of_mem _) place new (List.mem_cons_self ..)

theorem unseen_cons_le (places seen : List α) (x : α) :
    unseen places (x :: seen) ≤ unseen places seen :=
  unseen_le places fun _ => List.mem_cons_of_mem _

end AliasScript

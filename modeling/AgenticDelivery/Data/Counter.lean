import Mathlib.Algebra.BigOperators.Group.List.Basic
import Mathlib.Algebra.GroupWithZero.Nat
import Mathlib.Data.List.Count
import AgenticDelivery.Data.Dict

/-! # Counting into a dictionary

A counter holds for each item how often it has been counted, under the items in the
order of their first occurrence. Summed over some of its keys it is the number of
items among these. -/
namespace AgenticDelivery.Data

variable {κ : Type} [DecidableEq κ]

/-- Count one more `k`. -/
def Dict.increment (d : Dict κ Nat) (k : κ) : Dict κ Nat := d.set k ((d.get? k).getD 0 + 1)

/-- `Counter(items)` -/
def counter (items : List κ) : Dict κ Nat := items.foldl Dict.increment Dict.empty

/-- The sum of the counts of the keys with the property. -/
def Dict.total (d : Dict κ Nat) (p : κ → Bool) : Nat :=
  ((d.entries.filter fun e => p e.1).map Prod.snd).sum

variable {d : Dict κ Nat} {p : κ → Bool} {k : κ} {items : List κ}

theorem Dict.total_increment : (d.increment k).total p = d.total p + if p k then 1 else 0 := by
  have hentries (l : List (κ × Nat)) :
      (((setEntry k ((l.lookup k).getD 0 + 1) l).filter fun e => p e.1).map Prod.snd).sum =
        ((l.filter fun e => p e.1).map Prod.snd).sum + if p k then 1 else 0 := by
    induction l with
    | nil => cases hp : p k <;> simp [setEntry, hp]
    | cons e l ih =>
      obtain ⟨k', n⟩ := e
      by_cases hk : k' = k
      · subst hk
        cases hp : p k' <;> simp [setEntry, hp]
        omega
      · have hlookup : ((k', n) :: l).lookup k = l.lookup k := by
          rw [List.lookup_cons, beq_false_of_ne (Ne.symm hk)]
        rw [hlookup, setEntry, if_neg hk]
        cases hp : p k' <;> simp [hp, ih]
        omega
  exact hentries d.entries

theorem total_foldl_increment :
    (items.foldl Dict.increment d).total p = d.total p + items.countP p := by
  induction items generalizing d with
  | nil => rfl
  | cons k items ih =>
    rw [List.foldl_cons, ih, Dict.total_increment, List.countP_cons]
    omega

/-- **What a counter counts**, on any part of its keys. -/
theorem total_counter : (counter items).total p = items.countP p := by
  rw [counter, total_foldl_increment]
  exact Nat.zero_add _

theorem sum_values_counter : (counter items).values.sum = items.length := by
  have h := @total_counter κ _ (fun _ => true) items
  rwa [Dict.total, List.countP_true, List.filter_true] at h

end AgenticDelivery.Data

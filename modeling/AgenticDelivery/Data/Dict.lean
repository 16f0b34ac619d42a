import Mathlib.Data.List.Nodup

/-! # Dictionaries in insertion order

A finite map that keeps its keys in the order of their first insertion, as a
list of entries without a repeated key. Setting a known key replaces its value
in place; setting a new key appends. -/
namespace AgenticDelivery.Data

variable {κ ν : Type} [DecidableEq κ]

def setEntry (k : κ) (v : ν) : List (κ × ν) → List (κ × ν)
  | [] => [(k, v)]
  | (k', v') :: rest => if k' = k then (k, v) :: rest else (k', v') :: setEntry k v rest

theorem mem_setEntry_keys {k k' : κ} {v : ν} : ∀ {l : List (κ × ν)},
    k' ∈ (setEntry k v l).map Prod.fst → k' = k ∨ k' ∈ l.map Prod.fst
  | [], h => by simpa [setEntry] using h
  | (k₀, v₀) :: rest, h => by
    simp only [setEntry] at h
    split at h
    · simp only [List.map_cons, List.mem_cons] at h ⊢
      rcases h with rfl | h
      · exact .inl rfl
      · exact .inr (.inr h)
    · simp only [List.map_cons, List.mem_cons] at h ⊢
      rcases h with rfl | h
      · exact .inr (.inl rfl)
      · exact (mem_setEntry_keys h).imp_right .inr

theorem nodup_setEntry (k : κ) (v : ν) : ∀ {l : List (κ × ν)},
    (l.map Prod.fst).Nodup → ((setEntry k v l).map Prod.fst).Nodup
  | [], _ => by simp [setEntry]
  | (k₀, v₀) :: rest, h => by
    obtain ⟨hk, hr⟩ := List.nodup_cons.mp h
    simp only [setEntry]
    split
    · rename_i he
      subst he
      exact List.nodup_cons.mpr ⟨hk, hr⟩
    · rename_i hne
      refine List.nodup_cons.mpr ⟨fun hm => ?_, nodup_setEntry k v hr⟩
      rcases mem_setEntry_keys hm with he | hm
      · exact hne he
      · exact hk hm

/-- A known key keeps its place, a new key comes last. -/
theorem setEntry_keys (k : κ) (v : ν) : ∀ l : List (κ × ν), (setEntry k v l).map Prod.fst =
    if k ∈ l.map Prod.fst then l.map Prod.fst else l.map Prod.fst ++ [k]
  | [] => rfl
  | (k₀, v₀) :: rest => by
    by_cases he : k₀ = k
    · subst he
      rw [setEntry, if_pos rfl, if_pos (by simp)]
      rfl
    · rw [setEntry, if_neg he, List.map_cons, setEntry_keys k v rest, List.map_cons]
      by_cases hm : k ∈ rest.map Prod.fst
      · rw [if_pos hm, if_pos (List.mem_cons_of_mem _ hm)]
      · have hn : k ∉ k₀ :: rest.map Prod.fst := by simp [hm, Ne.symm he]
        rw [if_neg hm, if_neg hn]
        rfl

theorem lookup_setEntry_self (k : κ) (v : ν) : ∀ l : List (κ × ν),
    (setEntry k v l).lookup k = some v
  | [] => by simp [setEntry]
  | (k₀, v₀) :: rest => by
    simp only [setEntry]
    split
    · simp
    · rename_i hne
      rw [List.lookup_cons, beq_false_of_ne (Ne.symm hne)]
      exact lookup_setEntry_self k v rest

theorem lookup_setEntry_ne {k k' : κ} (hne : k' ≠ k) (v : ν) : ∀ l : List (κ × ν),
    (setEntry k v l).lookup k' = l.lookup k'
  | [] => by rw [setEntry, List.lookup_cons, beq_false_of_ne hne]
  | (k₀, v₀) :: rest => by
    simp only [setEntry]
    split
    · rename_i he
      subst he
      rw [List.lookup_cons, List.lookup_cons, beq_false_of_ne hne]
    · rw [List.lookup_cons, List.lookup_cons, lookup_setEntry_ne hne v rest]

theorem lookup_eq_some_iff {k : κ} {v : ν} : ∀ {l : List (κ × ν)}, (l.map Prod.fst).Nodup →
    (l.lookup k = some v ↔ (k, v) ∈ l)
  | [], _ => by simp
  | (k₀, v₀) :: rest, h => by
    obtain ⟨hk, hr⟩ := List.nodup_cons.mp h
    by_cases he : k = k₀
    · subst he
      rw [List.lookup_cons, beq_self_eq_true, List.mem_cons]
      constructor
      · intro hv
        exact .inl (by rw [Option.some.inj hv])
      · rintro (hv | hm)
        · rw [(Prod.mk.inj hv).2]
        · exact absurd (List.mem_map_of_mem (f := Prod.fst) hm) hk
    · rw [List.lookup_cons, beq_false_of_ne he, List.mem_cons, lookup_eq_some_iff hr]
      constructor
      · exact .inr
      · rintro (hv | hm)
        · exact absurd (Prod.mk.inj hv).1 he
        · exact hm

/-- A dictionary: its entries in insertion order, no key twice. -/
structure Dict (κ ν : Type) where
  entries : List (κ × ν)
  nodup : (entries.map Prod.fst).Nodup

namespace Dict

def empty : Dict κ ν := ⟨[], List.nodup_nil⟩

def get? (d : Dict κ ν) (k : κ) : Option ν := d.entries.lookup k

def set (d : Dict κ ν) (k : κ) (v : ν) : Dict κ ν :=
  ⟨setEntry k v d.entries, nodup_setEntry k v d.nodup⟩

def values (d : Dict κ ν) : List ν := d.entries.map Prod.snd

/-- The keys, in insertion order. -/
def keys (d : Dict κ ν) : List κ := d.entries.map Prod.fst

theorem keys_set (d : Dict κ ν) (k : κ) (v : ν) :
    (d.set k v).keys = if k ∈ d.keys then d.keys else d.keys ++ [k] :=
  setEntry_keys k v d.entries

@[simp] theorem get?_set_self (d : Dict κ ν) (k : κ) (v : ν) : (d.set k v).get? k = some v :=
  lookup_setEntry_self k v d.entries

theorem get?_set_ne (d : Dict κ ν) {k k' : κ} (h : k' ≠ k) (v : ν) :
    (d.set k v).get? k' = d.get? k' :=
  lookup_setEntry_ne h v d.entries

theorem get?_set (d : Dict κ ν) (k k' : κ) (v : ν) :
    (d.set k v).get? k' = if k' = k then some v else d.get? k' := by
  split
  · rename_i h
    rw [h, get?_set_self]
  · rename_i h
    exact d.get?_set_ne h v

theorem get?_eq_some_iff (d : Dict κ ν) {k : κ} {v : ν} : d.get? k = some v ↔ (k, v) ∈ d.entries :=
  lookup_eq_some_iff d.nodup

theorem mem_keys_iff (d : Dict κ ν) {k : κ} : k ∈ d.keys ↔ ∃ v, d.get? k = some v := by
  simp only [keys, List.mem_map, Prod.exists, exists_and_right, exists_eq_right, get?_eq_some_iff]

theorem mem_values_iff (d : Dict κ ν) {v : ν} : v ∈ d.values ↔ ∃ k, d.get? k = some v := by
  simp only [values, List.mem_map, Prod.exists, exists_eq_right, get?_eq_some_iff]

@[simp] theorem get?_empty (k : κ) : (empty : Dict κ ν).get? k = none := rfl

/-- After a list of values, each under its own key, a key holds the last one of its own. -/
theorem get?_foldl_set (key : ν → κ) (l : List ν) (d : Dict κ ν) (k : κ) :
    (l.foldl (fun d v => d.set (key v) v) d).get? k =
      (l.filter fun v => key v = k).getLast?.or (d.get? k) := by
  induction l generalizing d with
  | nil => rfl
  | cons v l ih =>
    rw [List.foldl_cons, ih, List.filter_cons]
    by_cases hv : key v = k
    · rw [if_pos (decide_eq_true hv), List.getLast?_cons, ← hv, get?_set_self]
      cases (l.filter fun v' => key v' = key v).getLast? <;> rfl
    · rw [if_neg (by simpa using hv), d.get?_set_ne (Ne.symm hv)]

/-- Of values that determine their key, at most one has a given property when
the property determines the key. -/
theorem countP_values_le_one (d : Dict κ ν) (P : ν → Bool) (k : κ)
    (h : ∀ k' v, d.get? k' = some v → P v = true → k' = k) : d.values.countP P ≤ 1 := by
  have hl : ∀ l : List (κ × ν), (l.map Prod.fst).Nodup →
      (∀ e ∈ l, P e.2 = true → e.1 = k) → (l.map Prod.snd).countP P ≤ 1 := by
    intro l hn hk
    induction l with
    | nil => simp
    | cons e rest ih =>
      obtain ⟨he, hr⟩ := List.nodup_cons.mp hn
      rw [List.map_cons, List.countP_cons]
      split
      · rename_i hp
        have hz : (rest.map Prod.snd).countP P = 0 := by
          rw [List.countP_eq_zero]
          intro v hv hpv
          obtain ⟨e', he', rfl⟩ := List.mem_map.mp hv
          have hke : e'.1 = e.1 := (hk e' (.tail _ he') hpv).trans (hk e (.head _) hp).symm
          exact he (hke ▸ List.mem_map_of_mem he')
        omega
      · exact ih hr fun e' he' => hk e' (.tail _ he')
  exact hl d.entries d.nodup fun e he => h e.1 e.2 (d.get?_eq_some_iff.mpr he)

end Dict

end AgenticDelivery.Data

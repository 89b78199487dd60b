import Mathlib.Data.List.Sort
import Mathlib.Order.Defs.LinearOrder

/-!
# Values under keys of their own

A list of values, each of which carries its key, can be checked for repeated keys
in one pass that remembers the keys so far, and be put into a map under these
keys.  If no key is repeated, the map keeps all values, and sorting its values by
key gives one list, whatever order they are enumerated in.
-/

namespace RpictlMcp

section Fresh

variable {κ : Type} {used keys : List κ} {k : κ}

/-- Keys without repetition, none of which has been used before. -/
structure Fresh (used keys : List κ) : Prop where
  unused : ∀ k ∈ keys, k ∉ used
  nodup : keys.Nodup

theorem fresh_nil : Fresh used [] := by
  constructor
  · intro k hk
    cases hk
  · exact List.nodup_nil

/-- One step of the pass that remembers the keys so far. -/
theorem fresh_cons :
    Fresh used (k :: keys) ↔ k ∉ used ∧ Fresh (k :: used) keys := by
  constructor
  · rintro ⟨hunused, hnodup⟩
    obtain ⟨hk, hkeys⟩ := List.nodup_cons.mp hnodup
    refine ⟨hunused k List.mem_cons_self, ?_, hkeys⟩
    intro other hother hused
    rcases List.mem_cons.mp hused with rfl | hused
    · exact hk hother
    · exact hunused other (List.mem_cons_of_mem k hother) hused
  · rintro ⟨hk, hunused, hnodup⟩
    constructor
    · intro other hother hused
      rcases List.mem_cons.mp hother with rfl | hother
      · exact hk hused
      · exact hunused other hother (List.mem_cons_of_mem k hused)
    · rw [List.nodup_cons]
      exact ⟨fun hmem => hunused k hmem List.mem_cons_self, hnodup⟩

theorem fresh_nil_left : Fresh [] keys ↔ keys.Nodup := by
  constructor
  · exact Fresh.nodup
  · intro hnodup
    exact ⟨fun _ _ => List.not_mem_nil, hnodup⟩

end Fresh

section Keyed

variable {κ α : Type} {key : α → κ} {values other : List α}

/-- Values with different keys are found by their keys. -/
theorem eq_of_key_eq (hkeys : (values.map key).Nodup) {a b : α}
    (ha : a ∈ values) (hb : b ∈ values) (h : key a = key b) : a = b :=
  List.inj_on_of_nodup_map hkeys ha hb h

section Map

variable [BEq κ] [LawfulBEq κ] [Hashable κ]

/-- The map of the values under their keys. -/
def keyedMap (key : α → κ) (values : List α) : Std.HashMap κ α :=
  Std.HashMap.ofList (values.map fun a => (key a, a))

theorem getElem?_keyedMap_of_mem (hkeys : (values.map key).Nodup) {a : α}
    (ha : a ∈ values) : (keyedMap key values)[key a]? = some a := by
  refine Std.HashMap.getElem?_ofList_of_mem (by simp) ?_
    (List.mem_map_of_mem ha)
  rw [List.pairwise_map]
  rw [List.Nodup, List.pairwise_map] at hkeys
  exact hkeys.imp fun hne => beq_false_of_ne hne

theorem getElem?_keyedMap_eq_none {k : κ} (h : ∀ a ∈ values, key a ≠ k) :
    (keyedMap key values)[k]? = none := by
  refine Std.HashMap.getElem?_ofList_of_contains_eq_false ?_
  rw [← Bool.not_eq_true, List.contains_iff_mem]
  simpa using h

/-- The map finds the values under their keys and nothing else. -/
theorem getElem?_keyedMap (hkeys : (values.map key).Nodup) {k : κ} {a : α} :
    (keyedMap key values)[k]? = some a ↔ a ∈ values ∧ key a = k := by
  constructor
  · intro hfound
    by_cases hnone : ∀ b ∈ values, key b ≠ k
    · rw [getElem?_keyedMap_eq_none hnone] at hfound
      cases hfound
    · push Not at hnone
      obtain ⟨b, hb, rfl⟩ := hnone
      rw [getElem?_keyedMap_of_mem hkeys hb] at hfound
      cases hfound
      exact ⟨hb, rfl⟩
  · rintro ⟨ha, rfl⟩
    exact getElem?_keyedMap_of_mem hkeys ha

/-- The map keeps every value once. -/
theorem keyedMap_perm (hkeys : (values.map key).Nodup) :
    ((keyedMap key values).toList.map Prod.snd).Perm values := by
  have hentries : ((keyedMap key values).toList).Perm
      (values.map fun a => (key a, a)) := by
    rw [List.perm_ext_iff_of_nodup]
    · rintro ⟨k, a⟩
      rw [Std.HashMap.mem_toList_iff_getElem?_eq_some, getElem?_keyedMap hkeys,
        List.mem_map]
      constructor
      · rintro ⟨ha, rfl⟩
        exact ⟨a, ha, rfl⟩
      · rintro ⟨b, hb, heq⟩
        cases heq
        exact ⟨hb, rfl⟩
    · refine Std.HashMap.distinct_keys_toList.imp ?_
      rintro entry _ hne rfl
      simp at hne
    · exact List.Nodup.map (fun a b h => congrArg Prod.snd h)
        (hkeys.of_map key)
  have hback : (values.map fun a => (key a, a)).map Prod.snd = values := by
    simp [Function.comp_def]
  have hvalues := hentries.map Prod.snd
  rwa [hback] at hvalues

end Map

section Sorting

variable [LinearOrder κ]

/-- The values, sorted by their keys. -/
def sortByKey (key : α → κ) (values : List α) : List α :=
  values.mergeSort fun left right => decide (key left ≤ key right)

theorem sortByKey_perm : (sortByKey key values).Perm values :=
  List.mergeSort_perm values _

theorem sortByKey_sorted :
    (sortByKey key values).Pairwise fun left right => key left ≤ key right := by
  have hsorted : (sortByKey key values).Pairwise fun left right =>
      decide (key left ≤ key right) = true := by
    refine List.pairwise_mergeSort ?_ ?_ values
    · intro a b c hab hbc
      exact decide_eq_true
        ((of_decide_eq_true hab).trans (of_decide_eq_true hbc))
    · intro a b
      rw [Bool.or_eq_true, decide_eq_true_iff, decide_eq_true_iff]
      exact le_total _ _
  exact hsorted.imp of_decide_eq_true

/-- Different keys are sorted strictly. -/
theorem sortByKey_strict (hkeys : (values.map key).Nodup) :
    (sortByKey key values).Pairwise fun left right => key left < key right := by
  have hnodup : ((sortByKey key values).map key).Nodup :=
    (sortByKey_perm.map key).nodup_iff.mpr hkeys
  rw [List.Nodup, List.pairwise_map] at hnodup
  exact (sortByKey_sorted.and hnodup).imp fun h => lt_of_le_of_ne h.1 h.2

/-- The sorted list does not depend on the order of the values. -/
theorem sortByKey_eq_of_perm (hkeys : (values.map key).Nodup)
    (h : other.Perm values) : sortByKey key other = sortByKey key values := by
  refine List.Perm.eq_of_pairwise ?_ sortByKey_sorted sortByKey_sorted
    ((sortByKey_perm.trans h).trans sortByKey_perm.symm)
  intro a b ha hb hab hba
  exact eq_of_key_eq hkeys (h.mem_iff.mp (sortByKey_perm.mem_iff.mp ha))
    (sortByKey_perm.mem_iff.mp hb) (le_antisymm hab hba)

end Sorting

end Keyed

end RpictlMcp

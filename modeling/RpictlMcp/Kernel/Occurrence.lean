import Mathlib.Data.List.Infix

/-!
# rpictl-mcp kernel: occurrences of a word in a text

`rfind text word` is the offset at which `word` begins for the last time in
`text`, and `contains` says whether it occurs at all.  `maxByKey` selects from a
list an element with the greatest key, the last one when several have it.

The last occurrence is local to the end of a text: an occurrence in a suffix
is still the last one after anything has been put in front, and an occurrence
that is the last one of a longer text and begins in its suffix is the last one
of that suffix.
-/

namespace RpictlMcp

universe u

section Occurrence

variable {α : Type u} [DecidableEq α]

/-- The offset of the last occurrence of a word. -/
def rfind : List α → List α → Option Nat
  | [], word => if word = [] then some 0 else none
  | x :: text, word =>
      match rfind text word with
      | some i => some (i + 1)
      | none => if word <+: x :: text then some 0 else none

/-- Whether a word occurs in a text. -/
def contains (text word : List α) : Bool :=
  (rfind text word).isSome

/-- An occurrence found by `rfind` is an occurrence. -/
theorem isPrefix_drop_of_rfind {text word : List α} {i : Nat}
    (h : rfind text word = some i) : word <+: text.drop i := by
  induction text generalizing i with
  | nil =>
      simp only [rfind, Option.ite_none_right_eq_some,
        Option.some.injEq] at h
      simp [h.1]
  | cons x text ih =>
      rw [rfind] at h
      split at h
      · rename_i j hj
        obtain rfl := Option.some.inj h
        simpa using ih hj
      · simp only [Option.ite_none_right_eq_some, Option.some.injEq] at h
        obtain ⟨hstarts, rfl⟩ := h
        simpa using hstarts

theorem rfind_le_length {text word : List α} {i : Nat}
    (h : rfind text word = some i) : i ≤ text.length := by
  induction text generalizing i with
  | nil =>
      simp only [rfind, Option.ite_none_right_eq_some,
        Option.some.injEq] at h
      simp [← h.2]
  | cons x text ih =>
      rw [rfind] at h
      split at h
      · rename_i j hj
        have := ih hj
        simp only [Option.some.injEq] at h
        simp only [List.length_cons]
        omega
      · simp only [Option.ite_none_right_eq_some, Option.some.injEq] at h
        omega

/-- A word found in a text fits behind its offset. -/
theorem rfind_add_length_le {text word : List α} {i : Nat}
    (h : rfind text word = some i) : i + word.length ≤ text.length := by
  have hlen := (isPrefix_drop_of_rfind h).length_le
  have hle := rfind_le_length h
  rw [List.length_drop] at hlen
  omega

/-- Every occurrence begins no later than the one found. -/
theorem le_of_rfind {text word : List α} {j : Nat}
    (hj : j ≤ text.length) (hoccurs : word <+: text.drop j) :
    ∃ i, rfind text word = some i ∧ j ≤ i := by
  induction text generalizing j with
  | nil =>
      simp only [List.drop_nil, List.prefix_nil] at hoccurs
      exact ⟨0, by simp [rfind, hoccurs], by simpa using hj⟩
  | cons x text ih =>
      cases j with
      | zero =>
          cases hfind : rfind text word with
          | none =>
              exact ⟨0, by
                rw [rfind, hfind]
                simpa using hoccurs, Nat.le_refl 0⟩
          | some i =>
              exact ⟨i + 1, by rw [rfind, hfind], Nat.zero_le _⟩
      | succ j =>
          obtain ⟨i, hfind, hle⟩ :=
            ih (by simpa using hj) (by simpa using hoccurs)
          exact ⟨i + 1, by rw [rfind, hfind], by omega⟩

/-- A word is found exactly in the texts it occurs in. -/
theorem contains_iff {text word : List α} :
    contains text word = true ↔ word <:+: text := by
  rw [contains, Option.isSome_iff_exists]
  constructor
  · rintro ⟨i, hi⟩
    exact (isPrefix_drop_of_rfind hi).isInfix.trans
      (List.drop_suffix i text).isInfix
  · rintro ⟨before, after, rfl⟩
    have hoccurs : word <+: (before ++ word ++ after).drop before.length := by
      simp
    obtain ⟨i, hi, -⟩ := le_of_rfind (by simp) hoccurs
    exact ⟨i, hi⟩

/-- Text in front of an occurrence moves it and hides nothing. -/
theorem rfind_append {text word : List α} {i : Nat} (front : List α)
    (h : rfind text word = some i) :
    rfind (front ++ text) word = some (front.length + i) := by
  induction front with
  | nil => simpa using h
  | cons x front ih =>
      rw [List.cons_append, rfind, ih]
      simp only [List.length_cons, Option.some.injEq]
      omega

/-- An occurrence that begins in a suffix is an occurrence of the suffix. -/
theorem rfind_append_of_le {front text word : List α} {i : Nat}
    (h : rfind (front ++ text) word = some i) (hle : front.length ≤ i) :
    rfind text word = some (i - front.length) := by
  have hstarts : word <+: text.drop (i - front.length) := by
    have := isPrefix_drop_of_rfind h
    rwa [List.drop_append, List.drop_of_length_le hle,
      List.nil_append] at this
  have hlen := rfind_le_length h
  rw [List.length_append] at hlen
  obtain ⟨j, hj, hle'⟩ := le_of_rfind
    (show i - front.length ≤ text.length by omega) hstarts
  have hsame := rfind_append front hj
  rw [h, Option.some.injEq] at hsame
  rw [hj]
  congr 1
  omega

/-- A text without the word adds only occurrences that begin before it. -/
theorem rfind_append_lt {front text word : List α} {i : Nat}
    (h : rfind (front ++ text) word = some i)
    (hnone : rfind text word = none) : i < front.length := by
  by_contra hle
  rw [rfind_append_of_le h (by omega)] at hnone
  cases hnone

/-- Text behind an occurrence may bring a later one. -/
theorem rfind_le_append {text word : List α} {j : Nat} (more : List α)
    (h : rfind text word = some j) :
    ∃ i, rfind (text ++ more) word = some i ∧ j ≤ i := by
  have hfits := rfind_add_length_le h
  have hstarts := isPrefix_drop_of_rfind h
  refine le_of_rfind (by rw [List.length_append]; omega) ?_
  rw [List.drop_append_of_le_length (by omega)]
  exact hstarts.trans (List.prefix_append _ _)

theorem rfind_none_of_append {text more word : List α}
    (h : rfind (text ++ more) word = none) : rfind text word = none := by
  cases hfind : rfind text word with
  | none => rfl
  | some j =>
      obtain ⟨i, hi, -⟩ := rfind_le_append more hfind
      rw [h] at hi
      cases hi

/-- The last occurrence of a text that is complete in its front is the last one
of the front. -/
theorem rfind_of_append {text more word : List α} {i : Nat}
    (h : rfind (text ++ more) word = some i)
    (hfits : i + word.length ≤ text.length) : rfind text word = some i := by
  have hstarts : word <+: text.drop i := by
    have hwhole := isPrefix_drop_of_rfind h
    rw [List.drop_append_of_le_length (by omega)] at hwhole
    refine List.prefix_of_prefix_length_le hwhole
      (List.prefix_append _ _) ?_
    rw [List.length_drop]
    omega
  obtain ⟨j, hj, hle⟩ := le_of_rfind (by omega) hstarts
  obtain ⟨k, hk, hle'⟩ := rfind_le_append more hj
  rw [h, Option.some.injEq] at hk
  rw [hj]
  congr 1
  omega

end Occurrence

section MaxByKey

variable {α : Type u} (key : α → Nat)

/-- An element with the greatest key, the last one among equals. -/
def maxByKey : List α → Option α
  | [] => none
  | x :: xs =>
      match maxByKey xs with
      | none => some x
      | some y => if key y < key x then some x else some y

variable {key}

theorem maxByKey_cons_none {x : α} {xs : List α}
    (h : maxByKey key xs = none) : maxByKey key (x :: xs) = some x := by
  rw [maxByKey, h]

theorem maxByKey_cons_some {x y : α} {xs : List α}
    (h : maxByKey key xs = some y) :
    maxByKey key (x :: xs) = if key y < key x then some x else some y := by
  rw [maxByKey, h]

theorem maxByKey_eq_none {xs : List α} :
    maxByKey key xs = none ↔ xs = [] := by
  cases xs with
  | nil => simp [maxByKey]
  | cons x xs =>
      rw [maxByKey]
      split
      · simp
      · split <;> simp

theorem mem_of_maxByKey {xs : List α} {y : α}
    (h : maxByKey key xs = some y) : y ∈ xs := by
  induction xs generalizing y with
  | nil => simp [maxByKey] at h
  | cons x xs ih =>
      rw [maxByKey] at h
      split at h
      · simp_all
      · rename_i z hz
        split at h <;> obtain rfl := Option.some.inj h
        · exact List.mem_cons_self
        · exact List.mem_cons_of_mem _ (ih hz)

theorem key_le_maxByKey {xs : List α} {x y : α} (hx : x ∈ xs)
    (h : maxByKey key xs = some y) : key x ≤ key y := by
  induction xs generalizing x y with
  | nil => simp at hx
  | cons z xs ih =>
      rw [maxByKey] at h
      split at h
      · rename_i hnone
        rw [maxByKey_eq_none] at hnone
        subst hnone
        obtain rfl := Option.some.inj h
        simp only [List.mem_singleton] at hx
        rw [hx]
      · rename_i m hm
        split at h <;> obtain rfl := Option.some.inj h <;>
          rcases List.mem_cons.mp hx with rfl | hx
        · exact Nat.le_refl _
        · have := ih hx hm
          omega
        · omega
        · exact ih hx hm

/-- The element found is the last one with the greatest key. -/
theorem maxByKey_eq_some_iff {xs : List α} {y : α} :
    maxByKey key xs = some y ↔ ∃ front back, xs = front ++ y :: back ∧
      (∀ x ∈ front, key x ≤ key y) ∧ ∀ x ∈ back, key x < key y := by
  induction xs with
  | nil => simp [maxByKey]
  | cons z xs ih =>
      constructor
      · intro h
        cases hrest : maxByKey key xs with
        | none =>
            rw [maxByKey_cons_none hrest, Option.some.injEq] at h
            rw [maxByKey_eq_none] at hrest
            exact ⟨[], xs, by simp [h], by simp, by simp [hrest]⟩
        | some m =>
            rw [maxByKey_cons_some hrest] at h
            split at h <;> obtain rfl := Option.some.inj h
            · rename_i hlt
              refine ⟨[], xs, rfl, by simp, fun x hx => ?_⟩
              exact Nat.lt_of_le_of_lt (key_le_maxByKey hx hrest) hlt
            · rename_i hle
              obtain ⟨front, back, rfl, hfront, hback⟩ := ih.mp hrest
              refine ⟨z :: front, back, rfl, ?_, hback⟩
              rw [List.forall_mem_cons]
              exact ⟨Nat.le_of_not_lt hle, hfront⟩
      · rintro ⟨front, back, hsplit, hfront, hback⟩
        cases front with
        | nil =>
            obtain ⟨rfl, rfl⟩ := List.cons.inj hsplit
            cases hrest : maxByKey key xs with
            | none => exact maxByKey_cons_none hrest
            | some m =>
                rw [maxByKey_cons_some hrest]
                exact if_pos (hback m (mem_of_maxByKey hrest))
        | cons first front =>
            obtain ⟨rfl, hxs⟩ := List.cons.inj hsplit
            obtain ⟨hfirst, hfront⟩ := List.forall_mem_cons.mp hfront
            rw [maxByKey_cons_some (ih.mpr ⟨front, back, hxs, hfront, hback⟩)]
            exact if_neg (Nat.not_lt.mpr hfirst)

/-- A change of the keys that keeps their order keeps the element found. -/
theorem maxByKey_map {β : Type u} {key' : β → Nat} {f : α → β} {xs : List α}
    (h : ∀ x ∈ xs, ∀ y ∈ xs, key' (f x) < key' (f y) ↔ key x < key y) :
    maxByKey key' (xs.map f) = (maxByKey key xs).map f := by
  induction xs with
  | nil => rfl
  | cons x xs ih =>
      have hxs := ih fun y hy z hz =>
        h y (List.mem_cons_of_mem x hy) z (List.mem_cons_of_mem x hz)
      rw [List.map_cons]
      cases hrest : maxByKey key xs with
      | none =>
          rw [hrest] at hxs
          rw [maxByKey_cons_none hrest, maxByKey_cons_none hxs]
          rfl
      | some y =>
          rw [hrest] at hxs
          have hy := List.mem_cons_of_mem x (mem_of_maxByKey hrest)
          rw [maxByKey_cons_some hrest, maxByKey_cons_some hxs]
          by_cases hlt : key y < key x
          · rw [if_pos hlt, if_pos ((h y hy x List.mem_cons_self).mpr hlt)]
            rfl
          · rw [if_neg hlt,
              if_neg (fun hlt' => hlt ((h y hy x List.mem_cons_self).mp hlt'))]
            rfl

end MaxByKey

end RpictlMcp

import Mathlib.Data.List.Basic

/-!
# rpictl-mcp kernel: segmented views of an append-only log

A log is a list whose entries are known by their index.  A bounded reader of a
log keeps a stretch of it as a list of segments, each of which stores the
index of its first entry and the entries themselves.  The indices are then
recomputed from the segments, so a view is correct only when the stored starts
and the stored entries agree with the log at the same time.

`stamped` spells a list of segments out as entries paired with the indices the
segments claim for them.  `Tiles log a b segs` says that the segments are
nonempty and that their stamped entries are exactly the entries of `log` with
the indices from `a` up to `b`.  Everything a reader wants to know follows from
that one equation: the segments abut, each entry stands at its own index, the
first segment starts at `a` and the last one ends at `b`.

Operations on segments are described by what they do to the stamped entries
(dropping a prefix, keeping a prefix, keeping the indices from a bound on), and
the `Tiles` rules below turn each such description into a new `Tiles` fact.
-/

namespace RpictlMcp
namespace StampedLog

universe u

section StampedLog

variable {α : Type u}

/-- Consecutive log entries, the first of which has index `start`. -/
structure Segment (α : Type u) where
  start : Nat
  items : List α

/-- The entries of one segment with the indices it claims for them. -/
def Segment.stamped (s : Segment α) : List (α × Nat) :=
  s.items.zipIdx s.start

/-- The entries of a list of segments with the indices claimed for them. -/
def stamped : List (Segment α) → List (α × Nat)
  | [] => []
  | s :: rest => s.stamped ++ stamped rest

@[simp] theorem stamped_nil : stamped ([] : List (Segment α)) = [] := rfl

@[simp] theorem stamped_cons (s : Segment α) (rest : List (Segment α)) :
    stamped (s :: rest) = s.stamped ++ stamped rest := rfl

@[simp] theorem stamped_append (xs ys : List (Segment α)) :
    stamped (xs ++ ys) = stamped xs ++ stamped ys := by
  induction xs with
  | nil => rfl
  | cons s xs ih =>
      simp [ih]

@[simp] theorem Segment.length_stamped (s : Segment α) :
    s.stamped.length = s.items.length := by
  simp [Segment.stamped]

/-- Forgetting the indices leaves the entries themselves. -/
theorem map_fst_stamped (segs : List (Segment α)) :
    (stamped segs).map Prod.fst = segs.flatMap Segment.items := by
  induction segs with
  | nil => rfl
  | cons s segs ih =>
      simp [Segment.stamped, ih, List.zipIdx_map_fst]

/-- Dropping entries from a numbered list raises the first number. -/
theorem drop_zipIdx (l : List α) (k n : Nat) :
    (l.zipIdx k).drop n = (l.drop n).zipIdx (k + n) := by
  induction n generalizing l k with
  | zero => simp
  | succ n ih =>
      cases l with
      | nil => simp
      | cons a l =>
          simp only [List.zipIdx_cons, List.drop_succ_cons, ih]
          congr 1
          omega

/-- Keeping a prefix of a numbered list keeps its numbers. -/
theorem take_zipIdx (l : List α) (k n : Nat) :
    (l.zipIdx k).take n = (l.take n).zipIdx k := by
  induction n generalizing l k with
  | zero => simp
  | succ n ih =>
      cases l with
      | nil => simp
      | cons a l =>
          simp [ih]

/-- Keeping the numbers from `c` on drops a prefix of a numbered list. -/
theorem filter_le_zipIdx (l : List α) (k c : Nat) :
    (l.zipIdx k).filter (fun e => decide (c ≤ e.2)) =
      (l.drop (c - k)).zipIdx (max k c) := by
  induction l generalizing k with
  | nil => simp
  | cons a l ih =>
      by_cases hc : c ≤ k
      · have hsub : c - (k + 1) = 0 := by omega
        have hmax : max (k + 1) c = max k c + 1 := by omega
        have hzero : c - k = 0 := by omega
        simp [ih, hc, hsub, hmax, hzero]
      · have hsub : c - k = (c - (k + 1)) + 1 := by omega
        have hmax : max (k + 1) c = max k c := by omega
        simp [ih, hc, hsub, hmax]

/-- The last `capacity` entries of a list. -/
def window (capacity : Nat) (l : List α) : List α :=
  l.drop (l.length - capacity)

theorem length_window (capacity : Nat) (l : List α) :
    (window capacity l).length = min l.length capacity := by
  rw [window, List.length_drop]
  omega

theorem map_window {β : Type u} (f : α → β) (capacity : Nat) (l : List α) :
    (window capacity l).map f = window capacity (l.map f) := by
  rw [window, window, List.map_drop, List.length_map]

/-- The window of a window is the smaller window. -/
theorem window_window (m n : Nat) (l : List α) :
    window m (window n l) = window (min m n) l := by
  rw [window, length_window, window, window, List.drop_drop]
  congr 1
  omega

theorem window_suffix (capacity : Nat) (l : List α) :
    window capacity l <:+ l :=
  List.drop_suffix _ l

/-- A window that begins inside an old list holds all that is new. -/
theorem window_append_of_le {capacity : Nat} {old more : List α}
    (h : (old ++ more).length - capacity ≤ old.length) :
    window capacity (old ++ more) =
      old.drop ((old ++ more).length - capacity) ++ more := by
  rw [window, List.drop_append_of_le_length h]

/-- A window only moves forward: what it keeps of an old list is an end of the
old window. -/
theorem drop_suffix_window (capacity : Nat) (old more : List α) :
    old.drop ((old ++ more).length - capacity) <:+ window capacity old := by
  refine List.drop_suffix_drop_left _ ?_
  rw [List.length_append]
  omega

/-- A second list that fills the window leaves nothing of the first in it. -/
theorem window_append_of_ge {capacity : Nat} (xs : List α) {ys : List α}
    (h : capacity ≤ ys.length) :
    window capacity (xs ++ ys) = window capacity ys := by
  have hdrop : xs.length + ys.length - capacity =
      xs.length + (ys.length - capacity) := by omega
  rw [window, List.length_append, hdrop, ← List.drop_drop, List.drop_left,
    window]

/-- A list that fits into the window is all in it. -/
theorem window_of_length_le {capacity : Nat} {l : List α}
    (h : l.length ≤ capacity) : window capacity l = l := by
  rw [window, Nat.sub_eq_zero_of_le h, List.drop_zero]

/-- The windows of two lists hold enough for the window of both together. -/
theorem window_append_window (capacity : Nat) (xs ys : List α) :
    window capacity (window capacity xs ++ window capacity ys) =
      window capacity (xs ++ ys) := by
  have hxs := length_window capacity xs
  have hys := length_window capacity ys
  by_cases h : capacity ≤ ys.length
  · -- The second list fills the window alone.
    rw [window_append_of_ge _ (by omega), window_append_of_ge _ h,
      window_window, Nat.min_self]
  · rw [window_of_length_le (l := ys) (by omega), window, List.length_append,
      hxs, List.drop_append_of_le_length (by omega)]
    rw [window, window, List.length_append,
      List.drop_append_of_le_length (by omega), List.drop_drop]
    congr 2
    omega

/-- A list sorted by a key is what lies below a key, at it and above it. -/
theorem exists_split_of_sorted {key : α → Nat} {l : List α}
    (hsorted : l.Pairwise fun x y => key x ≤ key y) (k : Nat) :
    ∃ below same above, l = below ++ (same ++ above) ∧
      (∀ x ∈ below, key x < k) ∧ (∀ x ∈ same, key x = k) ∧
        ∀ x ∈ above, k < key x := by
  induction l with
  | nil => exact ⟨[], [], [], rfl, by simp, by simp, by simp⟩
  | cons x l ih =>
      rw [List.pairwise_cons] at hsorted
      obtain ⟨hfirst, hrest⟩ := hsorted
      rcases Nat.lt_trichotomy (key x) k with hlt | heq | hgt
      · obtain ⟨below, same, above, rfl, hbelow, hsame, habove⟩ := ih hrest
        refine ⟨x :: below, same, above, rfl, ?_, hsame, habove⟩
        simpa using ⟨hlt, hbelow⟩
      · obtain ⟨below, same, above, rfl, hbelow, hsame, habove⟩ := ih hrest
        -- Nothing lies below the key once it has been seen.
        have hnil : below = [] := by
          rw [List.eq_nil_iff_forall_not_mem]
          intro y hy
          have := hfirst y (List.mem_append_left _ hy)
          have := hbelow y hy
          omega
        subst hnil
        refine ⟨[], x :: same, above, rfl, by simp, ?_, habove⟩
        simpa using ⟨heq, hsame⟩
      · refine ⟨[], [], x :: l, rfl, by simp, by simp, ?_⟩
        intro y hy
        rcases List.mem_cons.mp hy with rfl | hy
        · exact hgt
        · have := hfirst y hy
          omega

/-- Selecting one key of a sorted numbered list selects a stretch of it. -/
theorem exists_filter_zipIdx_eq {key : α → Nat} {l : List α}
    (hsorted : l.Pairwise fun x y => key x ≤ key y) (k n : Nat) :
    ∃ below same above, l = below ++ (same ++ above) ∧
      (l.zipIdx n).filter (fun e => decide (key e.1 = k)) =
        same.zipIdx (n + below.length) := by
  obtain ⟨below, same, above, rfl, hbelow, hsame, habove⟩ :=
    exists_split_of_sorted hsorted k
  refine ⟨below, same, above, rfl, ?_⟩
  have hnone : ∀ (part : List α) (m : Nat), (∀ x ∈ part, key x ≠ k) →
      (part.zipIdx m).filter (fun e => decide (key e.1 = k)) = [] := by
    intro part m hpart
    rw [List.filter_eq_nil_iff]
    rintro ⟨x, i⟩ hmem
    simpa using hpart x (List.fst_mem_of_mem_zipIdx hmem)
  have hall : (same.zipIdx (n + below.length)).filter
      (fun e => decide (key e.1 = k)) = same.zipIdx (n + below.length) := by
    rw [List.filter_eq_self]
    rintro ⟨x, i⟩ hmem
    simpa using hsame x (List.fst_mem_of_mem_zipIdx hmem)
  rw [List.zipIdx_append, List.zipIdx_append, List.filter_append,
    List.filter_append, hall, hnone below _ fun x hx => by
      have := hbelow x hx
      omega,
    hnone above _ fun x hx => by
      have := habove x hx
      omega,
    List.nil_append, List.append_nil]

/--
The segments are nonempty and spell out exactly the entries of the log with
indices from `a` up to `b`.
-/
structure Tiles (log : List α) (a b : Nat) (segs : List (Segment α)) : Prop where
  le : a ≤ b
  bound : b ≤ log.length
  entries : stamped segs = ((log.take b).drop a).zipIdx a
  nonempty : ∀ s ∈ segs, s.items ≠ []

variable {log more : List α} {a b : Nat} {segs segs' : List (Segment α)}

theorem Tiles.nil (ha : a ≤ log.length) : Tiles log a a [] where
  le := Nat.le_refl a
  bound := ha
  entries := by simp
  nonempty := by simp

/-- Segments that spell out the window of a log tile its end. -/
theorem Tiles.of_window {capacity : Nat}
    (hsegs : ∀ s ∈ segs, s.items ≠ [])
    (hwindow : stamped segs = window capacity log.zipIdx) :
    Tiles log (log.length - capacity) log.length segs where
  le := Nat.sub_le _ _
  bound := Nat.le_refl _
  entries := by
    rw [hwindow, window, List.length_zipIdx, drop_zipIdx, List.take_length,
      Nat.zero_add]
  nonempty := hsegs

/-- Segments that spell out the window of a stretch of the log tile its end. -/
theorem Tiles.of_stretch {before stretch after : List α} {n : Nat}
    (hlog : log = before ++ (stretch ++ after))
    (hsegs : ∀ s ∈ segs, s.items ≠ [])
    (hwindow : stamped segs = window n (stretch.zipIdx before.length)) :
    Tiles log (before.length + (stretch.length - n))
      (before.length + stretch.length) segs where
  le := by omega
  bound := by
    rw [hlog, List.length_append, List.length_append]
    omega
  entries := by
    have hslice : log.take (before.length + stretch.length) =
        before ++ stretch := by
      rw [hlog, ← List.append_assoc, ← List.length_append, List.take_left]
    rw [hwindow, window, List.length_zipIdx, drop_zipIdx, hslice,
      ← List.drop_drop, List.drop_left]
  nonempty := hsegs

/-- A tiling of the end of a log spells out its window. -/
theorem Tiles.stamped_eq_window {capacity : Nat}
    (h : Tiles log (log.length - capacity) log.length segs) :
    stamped segs = window capacity log.zipIdx := by
  rw [h.entries, window, List.length_zipIdx, drop_zipIdx, List.take_length,
    Nat.zero_add]

/-- The entries of a tiling are the slice of the log it covers. -/
theorem Tiles.items_eq (h : Tiles log a b segs) :
    segs.flatMap Segment.items = (log.take b).drop a := by
  rw [← map_fst_stamped, h.entries, List.zipIdx_map_fst]

/-- A tiling holds as many entries as its index range is wide. -/
theorem Tiles.length_stamped (h : Tiles log a b segs) :
    (stamped segs).length = b - a := by
  rw [h.entries, List.length_zipIdx, List.length_drop, List.length_take,
    Nat.min_eq_left h.bound]

/--
Segments that keep at most `n` of the entries from index `c` on tile the start
of the range from `c` on.
-/
theorem Tiles.of_filter_le_take (h : Tiles log a b segs) {c n : Nat}
    (hsegs' : ∀ s ∈ segs', s.items ≠ [])
    (hread :
      stamped segs' =
        ((stamped segs).filter (fun e => decide (c ≤ e.2))).take n)
    (hc : c ≤ b) :
    Tiles log (max a c) (min (max a c + n) b) segs' where
  le := by
    have := h.le
    omega
  bound := Nat.le_trans (Nat.min_le_right _ _) h.bound
  entries := by
    have hstart : a + (c - a) = max a c := by omega
    rw [hread, h.entries, filter_le_zipIdx, take_zipIdx, List.drop_drop, hstart,
      List.take_drop, List.take_take]
  nonempty := hsegs'

/-- Every entry of a tiling stands in the log at the index claimed for it. -/
theorem Tiles.getElem? (h : Tiles log a b segs) {s : Segment α}
    (hs : s ∈ segs) {i : Nat} (hi : i < s.items.length) :
    log[s.start + i]? = some s.items[i] := by
  have hmem : (s.items[i], s.start + i) ∈ stamped segs := by
    clear h
    induction segs with
    | nil => cases hs
    | cons t segs ih =>
        rw [stamped_cons, List.mem_append]
        rcases List.mem_cons.mp hs with rfl | hs
        · left
          rw [Segment.stamped, List.mk_add_mem_zipIdx_iff_getElem?]
          exact List.getElem?_eq_getElem hi
        · exact Or.inr (ih hs)
  rw [h.entries, List.mk_mem_zipIdx_iff_le_and_getElem?_sub] at hmem
  obtain ⟨hle, hget⟩ := hmem
  rw [List.getElem?_drop, Nat.add_sub_cancel' hle] at hget
  rw [List.getElem?_take] at hget
  split at hget
  · exact hget
  · cases hget

/-- The first segment of a tiling starts at its lower end and is followed by a
tiling of the rest of the range. -/
theorem Tiles.cons_inv {s : Segment α} (h : Tiles log a b (s :: segs)) :
    s.start = a ∧ Tiles log (a + s.items.length) b segs := by
  have hs : s.items ≠ [] := h.nonempty s (by simp)
  have hlen : s.items.length + (stamped segs).length = b - a := by
    have := h.length_stamped
    rw [stamped_cons, List.length_append, Segment.length_stamped] at this
    exact this
  have hstart : s.start = a := by
    obtain ⟨x, xs, hx⟩ := List.exists_cons_of_ne_nil hs
    have hentries := h.entries
    rw [stamped_cons, Segment.stamped, hx] at hentries
    cases hslice : (log.take b).drop a with
    | nil => simp [hslice] at hentries
    | cons y ys =>
        rw [hslice] at hentries
        simp only [List.zipIdx_cons, List.cons_append, List.cons.injEq,
          Prod.mk.injEq] at hentries
        exact hentries.1.2
  refine ⟨hstart, ?_, h.bound, ?_, ?_⟩
  · have := h.le
    omega
  · have hdrop : stamped segs = (stamped (s :: segs)).drop s.items.length := by
      rw [stamped_cons, List.drop_append_of_le_length (by simp),
        List.drop_of_length_le (by simp), List.nil_append]
    rw [hdrop, h.entries, drop_zipIdx, List.drop_drop]
  · intro t ht
    exact h.nonempty t (List.mem_cons_of_mem s ht)

/-- Consecutive segments of a tiling abut. -/
theorem Tiles.isChain (h : Tiles log a b segs) :
    segs.IsChain (fun s t => s.start + s.items.length = t.start) := by
  induction segs generalizing a with
  | nil => exact List.IsChain.nil
  | cons s segs ih =>
      obtain ⟨hs, hrest⟩ := h.cons_inv
      cases segs with
      | nil => exact List.IsChain.singleton s
      | cons t segs =>
          refine List.IsChain.cons_cons ?_ (ih hrest)
          rw [hs, (hrest.cons_inv).1]

/-- The entries counted from the first start end at the upper end. -/
theorem Tiles.head?_add (h : Tiles log a b segs) {s : Segment α}
    (hs : segs.head? = some s) : s.start + (stamped segs).length = b := by
  cases segs with
  | nil => cases hs
  | cons t segs =>
      obtain rfl : t = s := by simpa using hs
      rw [h.length_stamped, h.cons_inv.1]
      have := h.le
      omega

/-- A tiling without segments covers nothing. -/
theorem Tiles.eq_of_nil (h : Tiles log a b []) : a = b := by
  have hlen : 0 = b - a := h.length_stamped
  have hle := h.le
  omega

/-- The last segment of a tiling ends at its upper end. -/
theorem Tiles.getLast? (h : Tiles log a b segs) {s : Segment α}
    (hs : segs.getLast? = some s) : s.start + s.items.length = b := by
  induction segs generalizing a with
  | nil => simp at hs
  | cons t segs ih =>
      obtain ⟨ht, hrest⟩ := h.cons_inv
      cases segs with
      | nil =>
          have hb := hrest.eq_of_nil
          simp at hs
          subst hs
          omega
      | cons t' segs =>
          exact ih hrest (by simpa using hs)

end StampedLog

end StampedLog
end RpictlMcp

import Mathlib.Data.List.Basic

/-!
# Sorting by a key

A stable sort by a key leaves the items of each key as they were.  That and the order of the keys
say all about the sorted list, so whatever is filtered out of a list may be filtered out before or
after the sort.
-/

namespace ServiceMesh

variable {α κ : Type} {le : α → α → Bool} {key : α → κ}

/-- A comparison that looks at nothing but a key, and tells any two keys apart. -/
structure ComparesBy (le : α → α → Bool) (key : α → κ) : Prop where
  trans : ∀ one other third, le one other = true → le other third = true → le one third = true
  total : ∀ one other, (le one other || le other one) = true
  key_eq_iff : ∀ one other, key one = key other ↔ le one other = true ∧ le other one = true

namespace ComparesBy

theorem refl (h : ComparesBy le key) (item : α) : le item item = true :=
  ((h.key_eq_iff item item).1 rfl).1

theorem pairwise_mergeSort (h : ComparesBy le key) (items : List α) :
    (items.mergeSort le).Pairwise (le · ·) :=
  List.pairwise_mergeSort h.trans h.total items

variable [DecidableEq κ]

/-- Sorting keeps the order of the items of each key. -/
theorem filter_key_mergeSort (h : ComparesBy le key) (items : List α) (wanted : κ) :
    (items.mergeSort le).filter (key · = wanted) = items.filter (key · = wanted) := by
  have hequal : (items.filter (key · = wanted)).Pairwise (le · ·) := by
    refine List.pairwise_of_forall_mem_list fun one hone other hother ↦ ?_
    simp only [List.mem_filter, decide_eq_true_eq] at hone hother
    exact ((h.key_eq_iff one other).1 (hone.2.trans hother.2.symm)).1
  have hkept : (items.filter (key · = wanted)).Sublist (items.mergeSort le) :=
    List.sublist_mergeSort h.trans h.total hequal List.filter_sublist
  have hsublist : (items.filter (key · = wanted)).Sublist
      ((items.mergeSort le).filter (key · = wanted)) := by
    simpa using hkept.filter (key · = wanted)
  exact (hsublist.eq_of_length ((List.mergeSort_perm items le).filter _).length_eq.symm).symm

/-- Sorted lists are equal if they agree on each key. -/
theorem eq_of_filter_key (h : ComparesBy le key) {items items' : List α}
    (hsorted : items.Pairwise (le · ·)) (hsorted' : items'.Pairwise (le · ·))
    (hfilter : ∀ wanted, items.filter (key · = wanted) = items'.filter (key · = wanted)) :
    items = items' := by
  induction items generalizing items' with
  | nil =>
    cases items' with
    | nil => rfl
    | cons other rest' => simpa using hfilter (key other)
  | cons item rest ih =>
    have hmem : item ∈ items' := by
      have hkept : item ∈ items'.filter (key · = key item) := by
        rw [← hfilter]
        simp
      exact List.mem_of_mem_filter hkept
    cases items' with
    | nil => cases hmem
    | cons other rest' =>
      obtain ⟨hitem, hrest⟩ := List.pairwise_cons.1 hsorted
      obtain ⟨hother, hrest'⟩ := List.pairwise_cons.1 hsorted'
      have hmem' : other ∈ item :: rest := by
        have hkept : other ∈ (item :: rest).filter (key · = key other) := by
          rw [hfilter]
          simp
        exact List.mem_of_mem_filter hkept
      -- each head is in the other list, so neither key is below the other
      have hle : le item other = true := by
        rcases List.mem_cons.1 hmem' with rfl | hmem'
        · exact h.refl _
        · exact hitem other hmem'
      have hge : le other item = true := by
        rcases List.mem_cons.1 hmem with rfl | hmem
        · exact h.refl _
        · exact hother item hmem
      have hkey : key item = key other := (h.key_eq_iff item other).2 ⟨hle, hge⟩
      have hheads := hfilter (key item)
      rw [List.filter_cons_of_pos (by simp), List.filter_cons_of_pos (by simp [hkey])] at hheads
      obtain ⟨rfl, -⟩ := List.cons.inj hheads
      rw [ih hrest hrest' fun wanted ↦ ?_]
      have hsame := hfilter wanted
      by_cases hwanted : key item = wanted
      · rw [List.filter_cons_of_pos (by simpa using hwanted),
          List.filter_cons_of_pos (by simpa using hwanted)] at hsame
        exact List.tail_eq_of_cons_eq hsame
      · rwa [List.filter_cons_of_neg (by simpa using hwanted),
          List.filter_cons_of_neg (by simpa using hwanted)] at hsame

/-- A sorted list that keeps the items of each key in order is the stable sort. -/
theorem eq_mergeSort (h : ComparesBy le key) {sorted items : List α}
    (hsorted : sorted.Pairwise (le · ·))
    (hfilter : ∀ wanted, sorted.filter (key · = wanted) = items.filter (key · = wanted)) :
    sorted = items.mergeSort le := by
  refine h.eq_of_filter_key hsorted (h.pairwise_mergeSort items) fun wanted ↦ ?_
  rw [hfilter, h.filter_key_mergeSort]

/-- It is the same to choose items before or after the sort. -/
theorem filter_mergeSort (h : ComparesBy le key) (items : List α) (chosen : α → Bool) :
    (items.mergeSort le).filter chosen = (items.filter chosen).mergeSort le := by
  have hsorted : ((items.mergeSort le).filter chosen).Pairwise (le · ·) :=
    (h.pairwise_mergeSort items).filter chosen
  refine h.eq_mergeSort hsorted fun wanted ↦ ?_
  rw [List.filter_comm, h.filter_key_mergeSort, List.filter_comm]

end ComparesBy

end ServiceMesh

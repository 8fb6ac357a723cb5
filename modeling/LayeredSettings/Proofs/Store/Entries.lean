import LayeredSettings.Proofs.Settings
import LayeredSettings.Store.Basic

/-!
# The entries of a store

Going through entries with a list of the keys seen hides the later entries for each key
(`unseen_nil`). A store therefore lists each of its keys once (`nodup_keys_entries`), with the value
that a query for the key gives (`query_eq_valueOf?`). Sorting the entries brings the keys into
strictly increasing order (`pairwise_sortedEntries`).
-/

namespace LayeredSettings.Store

open Settings (valueOf? valueOf?_append)

/-! ## Visible entries -/

/-- The entries whose keys do not occur earlier in the list. -/
def visible : List Entry → List Entry
  | [] => []
  | e :: rest => e :: (visible rest).filter (·.1 ≠ e.1)

theorem unseen_eq_filter (seen : List Text) (es : List Entry) :
    unseen seen es = (visible es).filter (·.1 ∉ seen) := by
  induction es generalizing seen with
  | nil => rfl
  | cons e rest ih =>
    rw [unseen, visible]
    by_cases h : e.1 ∈ seen
    · -- Whoever was not seen has another key.
      rw [if_pos h, List.filter_cons_of_neg (by simpa using h), ih, List.filter_filter]
      refine List.filter_congr fun f _ => ?_
      by_cases hf : f.1 = e.1 <;> simp [hf, h]
    · rw [if_neg h, List.filter_cons_of_pos (by simpa using h), ih, List.filter_filter]
      congr 1
      refine List.filter_congr fun f _ => ?_
      by_cases hf : f.1 = e.1 <;> simp [hf]

theorem unseen_nil (es : List Entry) : unseen [] es = visible es := by
  rw [unseen_eq_filter, List.filter_eq_self]
  simp

theorem valueOf?_filter_ne (key k : Text) (es : List Entry) :
    valueOf? key (es.filter (·.1 ≠ k)) = if key = k then none else valueOf? key es := by
  induction es with
  | nil => simp [valueOf?]
  | cons e rest ih =>
    rw [List.filter_cons, valueOf?]
    by_cases he : e.1 = k
    · rw [if_neg (by simp [he]), ih]
      by_cases hk : key = k
      · rw [if_pos hk, if_pos hk]
      · have hne : e.1 ≠ key := fun h => hk (h.symm.trans he)
        rw [if_neg hk, if_neg hk, if_neg hne]
    · rw [if_pos (by simp [he]), valueOf?, ih]
      by_cases hk : key = k
      · have hne : e.1 ≠ key := fun h => he (h.trans hk)
        rw [if_pos hk, if_pos hk, if_neg hne]
      · rw [if_neg hk, if_neg hk]

/-- Hiding later entries for a key changes no first entry. -/
theorem valueOf?_visible (key : Text) (es : List Entry) :
    valueOf? key (visible es) = valueOf? key es := by
  induction es with
  | nil => rfl
  | cons e rest ih =>
    rw [visible, valueOf?, valueOf?, valueOf?_filter_ne, ih]
    by_cases h : e.1 = key
    · rw [if_pos h, if_pos h]
    · rw [if_neg h, if_neg h, if_neg (Ne.symm h)]

theorem nodup_keys_visible (es : List Entry) : ((visible es).map Prod.fst).Nodup := by
  induction es with
  | nil => exact List.nodup_nil
  | cons e rest ih =>
    rw [visible, List.map_cons, List.nodup_cons]
    refine ⟨?_, ih.sublist (List.filter_sublist.map Prod.fst)⟩
    intro h
    obtain ⟨f, hf, he⟩ := List.mem_map.1 h
    have hne := (List.mem_filter.1 hf).2
    simp [he] at hne

variable (host : Host) (s : Store)

/-- A store lists no key twice. -/
theorem nodup_keys_entries : ((s.entries host).map Prod.fst).Nodup := by
  cases s with
  | empty => exact List.nodup_nil
  | system => exact host.properties.distinct
  | environment => exact host.environment.distinct
  | mapped settings => exact settings.distinct
  | layered primary fallback =>
    rw [entries, unseen_nil]
    exact nodup_keys_visible _

theorem nodup_entries : (s.entries host).Nodup :=
  List.Pairwise.of_map Prod.fst (fun _ _ => mt (congrArg Prod.fst)) (nodup_keys_entries host s)

theorem valueOf?_chained (key : Text) :
    valueOf? key (s.chained host) = valueOf? key (s.entries host) := by
  cases s with
  | layered primary fallback => rw [chained, entries, unseen_nil, valueOf?_visible]
  | _ => rw [chained, entries]

/-- A query finds the value that a store lists. -/
theorem query_eq_valueOf? (key : Text) : s.query host key = valueOf? key (s.entries host) := by
  induction s with
  | layered primary fallback hp hf =>
    rw [query, entries, unseen_nil, valueOf?_visible, valueOf?_append, valueOf?_chained, hp, hf]
  | _ => rfl

/-! ## Sorted entries -/

theorem sortedEntries_perm : (s.sortedEntries host).Perm (s.entries host) :=
  List.mergeSort_perm _ _

theorem nodup_keys_sortedEntries : ((s.sortedEntries host).map Prod.fst).Nodup :=
  ((sortedEntries_perm host s).map Prod.fst).nodup_iff.2 (nodup_keys_entries host s)

/-- The keys of the sorted entries increase strictly. -/
theorem pairwise_sortedEntries : ((s.sortedEntries host).map Prod.fst).Pairwise (· < ·) := by
  have hle : (s.sortedEntries host).Pairwise fun a b => Text.le a.1 b.1 = true := by
    refine List.pairwise_mergeSort ?_ ?_ _
    · intro a b c hab hbc
      exact decide_eq_true (List.le_trans (of_decide_eq_true hab) (of_decide_eq_true hbc))
    · intro a b
      rw [Bool.or_eq_true, Text.le, Text.le, decide_eq_true_eq, decide_eq_true_eq]
      exact List.le_total a.1 b.1
  have hne := nodup_keys_sortedEntries host s
  rw [List.nodup_iff_pairwise_ne, List.pairwise_map] at hne
  rw [List.pairwise_map]
  refine (hle.and hne).imp fun {a b} h => ?_
  have hab : ¬ b.1 < a.1 := of_decide_eq_true h.1
  by_cases hlt : a.1 < b.1
  · exact hlt
  · exact absurd (List.le_antisymm hab hlt) h.2

/-- Strictly increasing keys leave one order to entries. -/
theorem eq_of_perm {es fs : List Entry} (hes : (es.map Prod.fst).Pairwise (· < ·))
    (hfs : (fs.map Prod.fst).Pairwise (· < ·)) (h : es.Perm fs) : es = fs := by
  rw [List.pairwise_map] at hes hfs
  exact h.eq_of_pairwise (fun a b _ _ hab hba => absurd hba (List.lt_asymm hab)) hes hfs

theorem sortedEntries_eq_iff (host' : Host) (s' : Store) :
    s.sortedEntries host = s'.sortedEntries host' ↔
      ∀ e, e ∈ s.entries host ↔ e ∈ s'.entries host' := by
  rw [← List.perm_ext_iff_of_nodup (nodup_entries host s) (nodup_entries host' s')]
  constructor
  · intro h
    exact (sortedEntries_perm host s).symm.trans (h ▸ sortedEntries_perm host' s')
  · intro h
    exact eq_of_perm (pairwise_sortedEntries host s) (pairwise_sortedEntries host' s')
      ((sortedEntries_perm host s).trans (h.trans (sortedEntries_perm host' s').symm))

end LayeredSettings.Store

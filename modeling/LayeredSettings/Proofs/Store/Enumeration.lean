import LayeredSettings.Proofs.Store.Entries
import LayeredSettings.Store.Lookup

/-!
# Enumerating and looking up

What a store lists and what it finds are one mapping, however its layers are nested. A key stands
where it comes first when the layers are listed one after another: hiding the later entries of a
list commutes with hiding those of its parts (`visible_visible_append`, `visible_append_visible`),
so that it does not matter at which levels of a nested store entries are hidden.
-/

namespace LayeredSettings.Store

open Settings (mem_of_valueOf?_eq_some valueOf?_eq_some_of_mem)

/-! ## Hiding later entries -/

theorem visible_filter_ne (key : Text) (es : List Entry) :
    visible (es.filter (·.1 ≠ key)) = (visible es).filter (·.1 ≠ key) := by
  induction es with
  | nil => rfl
  | cons e rest ih =>
    rw [visible, List.filter_cons, List.filter_cons]
    by_cases h : e.1 = key
    · -- All entries for the key are gone already.
      rw [if_neg (by simp [h]), if_neg (by simp [h]), ih, h, List.filter_filter]
      simp
    · rw [if_pos (by simp [h]), if_pos (by simp [h]), visible, ih, List.filter_filter,
        List.filter_filter]
      simp only [Bool.and_comm]

theorem visible_cons (e : Entry) (rest : List Entry) :
    visible (e :: rest) = e :: visible (rest.filter (·.1 ≠ e.1)) := by
  rw [visible, visible_filter_ne]

theorem visible_visible_append (es fs : List Entry) :
    visible (visible es ++ fs) = visible (es ++ fs) := by
  induction es with
  | nil => rfl
  | cons e rest ih =>
    have hfilter : ((visible rest).filter (·.1 ≠ e.1) ++ fs).filter (·.1 ≠ e.1) =
        (visible rest ++ fs).filter (·.1 ≠ e.1) := by
      rw [List.filter_append, List.filter_append, List.filter_filter]
      simp only [Bool.and_self]
    rw [visible, List.cons_append, List.cons_append, visible_cons, hfilter, visible_filter_ne, ih,
      visible]

theorem visible_append_visible (es fs : List Entry) :
    visible (es ++ visible fs) = visible (es ++ fs) := by
  induction es with
  | nil =>
    have h := visible_visible_append fs []
    rw [List.append_nil, List.append_nil] at h
    exact h
  | cons e rest ih => rw [List.cons_append, List.cons_append, visible, visible, ih]

/-- The keys that are left stand where they came first. -/
theorem map_fst_visible : ∀ es : List Entry, (visible es).map Prod.fst = (es.map Prod.fst).eraseDups
  | [] => rfl
  | e :: rest => by
    have hrest := map_fst_visible (rest.filter (·.1 ≠ e.1))
    have hkeys : (rest.filter (·.1 ≠ e.1)).map Prod.fst =
        (rest.map Prod.fst).filter fun key => !key == e.1 := by
      rw [List.filter_map]
      congr 2
      funext f
      by_cases h : f.1 = e.1 <;> simp [h]
    rw [visible_cons, List.map_cons, List.map_cons, List.eraseDups_cons, hrest, hkeys]
termination_by es => es.length
decreasing_by exact Nat.lt_succ_of_le (List.length_filter_le _ _)

/-- Nothing is hidden where no key occurs twice. -/
theorem visible_of_nodup {es : List Entry} (h : (es.map Prod.fst).Nodup) : visible es = es := by
  induction es with
  | nil => rfl
  | cons e rest ih =>
    rw [List.map_cons, List.nodup_cons] at h
    rw [visible, ih h.2]
    congr 1
    refine List.filter_eq_self.2 fun f hf => ?_
    have hne : f.1 ≠ e.1 := fun he => h.1 (he ▸ List.mem_map_of_mem hf)
    exact decide_eq_true hne

/-! ## Layers and leaves -/

/-- The stores that are not layered themselves, in the order in which they are asked. -/
def leaves : Store → List Store
  | layered primary fallback => primary.leaves ++ fallback.leaves
  | s => [s]

variable (host : Host) (s : Store)

theorem visible_entries : visible (s.entries host) = s.entries host :=
  visible_of_nodup (nodup_keys_entries host s)

/-- A store lists what its layers list, one layer after another, each key where it comes first. -/
theorem entries_eq_visible_layers :
    s.entries host = visible (s.layers.flatMap (entries host)) := by
  rw [← chained_eq_flatMap_layers]
  cases s with
  | layered primary fallback => rw [entries, unseen_nil, chained]
  | _ => rw [← visible_entries, entries, chained]

/-- Hiding the entries that the primary hides does not depend on how the fallback is layered. -/
theorem entries_layered (primary fallback : Store) :
    (layered primary fallback).entries host =
      visible (primary.entries host ++ fallback.entries host) := by
  rw [entries, unseen_nil, entries_eq_visible_layers host fallback, visible_append_visible,
    chained_eq_flatMap_layers]

/-- It makes no difference whether layered layers hide entries of their own first. -/
theorem entries_eq_visible_leaves :
    s.entries host = visible (s.leaves.flatMap (entries host)) := by
  induction s with
  | layered primary fallback hp hf =>
    rw [entries_layered, leaves, List.flatMap_append, hp, hf, visible_visible_append,
      visible_append_visible]
  | _ =>
    simp only [leaves, List.flatMap_singleton]
    exact (visible_entries host _).symm

/-! ## One mapping -/

/-- An entry is listed exactly when a query for its key finds its value. -/
theorem mem_entries_iff (key value : Text) :
    (key, value) ∈ s.entries host ↔ s.query host key = some value := by
  rw [query_eq_valueOf?]
  constructor
  · intro h
    exact valueOf?_eq_some_of_mem (nodup_keys_entries host s) h
  · exact mem_of_valueOf?_eq_some

theorem exists_mem_entries_iff (key : Text) :
    (∃ value, (key, value) ∈ s.entries host) ↔ (s.query host key).isSome = true := by
  rw [Option.isSome_iff_exists]
  exact exists_congr fun value => mem_entries_iff host s key value

theorem get_eq_missing_iff (key : Text) :
    s.get host key = .error (.missing key) ↔ s.query host key = none := by
  unfold get
  cases s.query host key with
  | none => exact iff_of_true rfl rfl
  | some value => exact iff_of_false (fun h => by cases h) (Option.some_ne_none value)

theorem keys_eq_map_sortedEntries : s.keys host = (s.sortedEntries host).map Prod.fst := by
  symm
  apply List.map_mergeSort
  intro a _ b _
  rfl

theorem mem_keys_iff (key : Text) :
    key ∈ s.keys host ↔ ∃ value, (key, value) ∈ s.entries host := by
  rw [keys, List.mem_mergeSort, List.mem_map]
  constructor
  · rintro ⟨⟨k, value⟩, hmem, rfl⟩
    exact ⟨value, hmem⟩
  · rintro ⟨value, hmem⟩
    exact ⟨(key, value), hmem, rfl⟩

/-- What a store lists, finds, must find, contains and names is one mapping. It lists each key
once, at the place where the key comes first when its layers, or the leaves they are made of, are
listed one after another. -/
theorem lookups_agree_with_entries :
    ((s.entries host).map Prod.fst).Nodup ∧
      (∀ key value, (key, value) ∈ s.entries host ↔ s.query host key = some value) ∧
      (∀ key, s.get host key = .error (.missing key) ↔ ∀ value, (key, value) ∉ s.entries host) ∧
      (∀ key, s.contains host (.text key) = true ↔ ∃ value, (key, value) ∈ s.entries host) ∧
      (s.keys host).Pairwise (· < ·) ∧
      (∀ key, key ∈ s.keys host ↔ ∃ value, (key, value) ∈ s.entries host) ∧
      (s.entries host).map Prod.fst =
        ((s.layers.flatMap (entries host)).map Prod.fst).eraseDups ∧
      (s.entries host).map Prod.fst =
        ((s.leaves.flatMap (entries host)).map Prod.fst).eraseDups := by
  refine ⟨nodup_keys_entries host s, mem_entries_iff host s, ?_, ?_, ?_, mem_keys_iff host s,
    ?_, ?_⟩
  · intro key
    have hnone := not_congr (exists_mem_entries_iff host s key)
    rw [not_exists, Option.not_isSome_iff_eq_none] at hnone
    rw [get_eq_missing_iff, hnone]
  · intro key
    exact (exists_mem_entries_iff host s key).symm
  · rw [keys_eq_map_sortedEntries]
    exact pairwise_sortedEntries host s
  · rw [← map_fst_visible, ← entries_eq_visible_layers]
  · rw [← map_fst_visible, ← entries_eq_visible_leaves]

end LayeredSettings.Store

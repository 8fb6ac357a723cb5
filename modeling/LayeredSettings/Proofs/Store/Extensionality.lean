import LayeredSettings.Proofs.Store.Enumeration
import LayeredSettings.Proofs.Store.RoundTrip
import LayeredSettings.Store.Snapshot

/-!
# Stores by their answers

A store is known by its answers: two stores answer every query alike exactly if what is made of them
is the same, be it listed, written or expanded (`query_eq_iff_indistinguishable`). How entries are
spread over layers, in which order they were given and which of them are hidden cannot be told.
-/

namespace LayeredSettings.Store

variable {host : Host} {s s' : Store}

/-- What is made of two stores is the same. -/
structure Indistinguishable (host : Host) (s s' : Store) : Prop where
  keys : s.keys host = s'.keys host
  render : ∀ header, s.render host header = s'.render host header
  snapshot : ∀ emit, s.snapshot emit host = s'.snapshot emit host
  expand : ∀ ceiling template, s.expand host ceiling template = s'.expand host ceiling template
  resolve : ∀ ceiling key, s.resolve host ceiling key = s'.resolve host ceiling key

/-! ## Entries -/

theorem query_eq_iff_entries :
    (∀ key, s.query host key = s'.query host key) ↔
      ∀ e, e ∈ s.entries host ↔ e ∈ s'.entries host := by
  constructor
  · rintro h ⟨key, value⟩
    rw [mem_entries_iff, mem_entries_iff, h]
  · intro h key
    refine Option.ext fun value => ?_
    rw [← mem_entries_iff, ← mem_entries_iff]
    exact h (key, value)

theorem sortedEntries_eq_iff_query :
    s.sortedEntries host = s'.sortedEntries host ↔
      ∀ key, s.query host key = s'.query host key := by
  rw [sortedEntries_eq_iff, query_eq_iff_entries]

/-- Entries with different keys are all there is in the store that is made of them. -/
theorem entries_ofEntries {es : List Entry} (h : (es.map Prod.fst).Nodup) :
    (ofEntries es).entries host = es :=
  Settings.entries_insertAll h fun _ _ => List.not_mem_nil

/-! ## Expansion -/

theorem get_eq_of_query (h : ∀ key, s.query host key = s'.query host key) (key : Text) :
    s.get host key = s'.get host key := by
  unfold get
  rw [h]

/-- Markers lead to the same values and scopes, so that expansions go the same way throughout. -/
theorem resolver_eq_of_query (h : ∀ key, s.query host key = s'.query host key) :
    s.resolver host = s'.resolver host := by
  funext base key
  unfold resolver
  cases Key.relative base key with
  | error fault => rfl
  | ok effective => simp only [get_eq_of_query h]

/-! ## What is made of stores -/

theorem indistinguishable_of_query (h : ∀ key, s.query host key = s'.query host key) :
    Indistinguishable host s s' := by
  have hsorted : s.sortedEntries host = s'.sortedEntries host := sortedEntries_eq_iff_query.2 h
  have hresolver : s.resolver host = s'.resolver host := resolver_eq_of_query h
  refine ⟨?keys, fun header => ?render, fun emit => ?snapshot, fun ceiling template => ?expand,
    fun ceiling key => ?resolve⟩
  case keys => rw [keys_eq_map_sortedEntries, keys_eq_map_sortedEntries, hsorted]
  case render =>
    unfold render
    rw [hsorted]
  case snapshot =>
    unfold snapshot
    rw [hsorted]
  case expand =>
    unfold expand
    rw [hresolver]
  case resolve =>
    unfold resolve
    rw [get_eq_of_query h, hresolver]

/-- A store is read back from its text, so that stores with one text have the same entries. -/
theorem query_eq_of_render (h : s.render host [] = s'.render host []) (key : Text) :
    s.query host key = s'.query host key := by
  have hs := parseText_render_eq host s [] (by simp) [] false
  have hs' := parseText_render_eq host s' [] (by simp) [] false
  have hsettings : s.sortedSettings host = s'.sortedSettings host := by
    rw [h] at hs
    exact Except.ok.inj (hs.symm.trans hs')
  exact sortedEntries_eq_iff_query.1 (congrArg Settings.entries hsettings) key

/-- Two stores answer every query alike if and only if what is made of them is the same. The store
of a store's own entries, in any order and without layers, is therefore as good as the store. -/
theorem query_eq_iff_indistinguishable (host : Host) :
    (∀ s s' : Store, (∀ key, s.query host key = s'.query host key) ↔
      Indistinguishable host s s') ∧
    ∀ (s : Store) (es : List Entry), es.Perm (s.entries host) →
      Indistinguishable host s (ofEntries es) := by
  refine ⟨fun s s' => ⟨indistinguishable_of_query, fun h => query_eq_of_render (h.render [])⟩, ?_⟩
  intro s es hperm
  have hnodup : (es.map Prod.fst).Nodup :=
    (hperm.map Prod.fst).nodup_iff.2 (nodup_keys_entries host s)
  refine indistinguishable_of_query (query_eq_iff_entries.2 fun e => ?_)
  rw [entries_ofEntries hnodup]
  exact hperm.mem_iff.symm

/-- Two layers, the upper of which hides a value of the lower. The value of `a` names `b`. -/
def twoLayers : Store :=
  .layered (ofEntries [("b".toList, "2".toList)])
    (ofEntries [("a".toList, "$\x7b.b\x7d".toList), ("b".toList, "1".toList)])

theorem query_eq_iff_indistinguishable_twoLayers :
    let flat : Store := ofEntries [("a".toList, "$\x7b.b\x7d".toList), ("b".toList, "2".toList)]
    twoLayers.entries ⟨.empty, .empty⟩ ≠ flat.entries ⟨.empty, .empty⟩ ∧
      [("a".toList, "$\x7b.b\x7d".toList), ("b".toList, "2".toList)].Perm
        (twoLayers.entries ⟨.empty, .empty⟩) ∧
      Indistinguishable ⟨.empty, .empty⟩ twoLayers flat ∧
      ∀ key, twoLayers.query ⟨.empty, .empty⟩ key = flat.query ⟨.empty, .empty⟩ key := by
  intro flat
  have hperm : [("a".toList, "$\x7b.b\x7d".toList), ("b".toList, "2".toList)].Perm
      (twoLayers.entries ⟨.empty, .empty⟩) := by decide
  obtain ⟨hanswers, hflat⟩ := query_eq_iff_indistinguishable ⟨.empty, .empty⟩
  have hsame : Indistinguishable ⟨.empty, .empty⟩ twoLayers flat := hflat twoLayers _ hperm
  exact ⟨by decide, hperm, hsame, (hanswers twoLayers flat).2 hsame⟩

end LayeredSettings.Store

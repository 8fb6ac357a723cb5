import LayeredSettings.Settings

/-!
# Settings as lists of entries

What setting one entry after another does: `keys_insertAll` gives the keys in the order in which
they were first given and `get?_insertAll` the value that was given last.
-/

namespace LayeredSettings.Settings

/-! ## The first entry for a key -/

theorem valueOf?_append (key : Text) (es fs : List Entry) :
    valueOf? key (es ++ fs) = (valueOf? key es).or (valueOf? key fs) := by
  induction es with
  | nil => rfl
  | cons e rest ih =>
    rw [List.cons_append, valueOf?, valueOf?]
    by_cases h : e.1 = key
    · rw [if_pos h, if_pos h, Option.some_or]
    · rw [if_neg h, if_neg h, ih]

theorem mem_of_valueOf?_eq_some {key value : Text} {es : List Entry}
    (h : valueOf? key es = some value) : (key, value) ∈ es := by
  induction es with
  | nil => cases h
  | cons e rest ih =>
    rw [valueOf?] at h
    split at h
    · next he =>
      cases h
      rw [← he]
      exact List.mem_cons_self
    · exact List.mem_cons_of_mem _ (ih h)

theorem valueOf?_eq_none_iff {key : Text} {es : List Entry} :
    valueOf? key es = none ↔ key ∉ es.map Prod.fst := by
  induction es with
  | nil => exact iff_of_true rfl List.not_mem_nil
  | cons e rest ih =>
    rw [valueOf?, List.map_cons, List.mem_cons, not_or]
    by_cases h : e.1 = key
    · rw [if_pos h]
      exact iff_of_false (Option.some_ne_none e.2) fun hk => hk.1 h.symm
    · rw [if_neg h, ih]
      exact (and_iff_right (Ne.symm h)).symm

/-- Where no key occurs twice, each entry is the first one for its key. -/
theorem valueOf?_eq_some_of_mem {key value : Text} {es : List Entry}
    (hes : (es.map Prod.fst).Nodup) (h : (key, value) ∈ es) : valueOf? key es = some value := by
  induction es with
  | nil => cases h
  | cons e rest ih =>
    rw [List.map_cons, List.nodup_cons] at hes
    rw [valueOf?]
    cases h with
    | head => rw [if_pos rfl]
    | tail _ hrest =>
      have hne : e.1 ≠ key := fun he => hes.1 (he ▸ List.mem_map_of_mem hrest)
      rw [if_neg hne, ih hes.2 hrest]

/-- Where no key occurs twice, the order of the entries does not matter. -/
theorem valueOf?_eq_of_perm {es fs : List Entry} (h : es.Perm fs) (hes : (es.map Prod.fst).Nodup)
    (key : Text) : valueOf? key es = valueOf? key fs := by
  have hfs : (fs.map Prod.fst).Nodup := (h.map Prod.fst).nodup_iff.1 hes
  ext value
  constructor
  · intro hvalue
    exact valueOf?_eq_some_of_mem hfs (h.mem_iff.1 (mem_of_valueOf?_eq_some hvalue))
  · intro hvalue
    exact valueOf?_eq_some_of_mem hes (h.mem_iff.2 (mem_of_valueOf?_eq_some hvalue))

/-! ## Setting one entry after another -/

@[simp] theorem insertAll_nil (s : Settings) : s.insertAll [] = s := rfl

theorem insertAll_cons (s : Settings) (e : Entry) (es : List Entry) :
    s.insertAll (e :: es) = (s.insert e.1 e.2).insertAll es := rfl

theorem insertAll_append (s : Settings) (es fs : List Entry) :
    s.insertAll (es ++ fs) = (s.insertAll es).insertAll fs :=
  List.foldl_append

private theorem eraseDups_of_nodup {keys : List Text} (h : keys.Nodup) : keys.eraseDups = keys := by
  induction keys with
  | nil => rfl
  | cons k rest ih =>
    obtain ⟨hk, hr⟩ := List.nodup_cons.1 h
    have hf : (rest.filter fun b => !b == k) = rest := by
      refine List.filter_eq_self.2 fun b hb => ?_
      have hne : b ≠ k := fun he => hk (he ▸ hb)
      simp [hne]
    rw [List.eraseDups_cons, hf, ih hr]

private theorem eraseDups_append_of_mem {key : Text} {keys : List Text} (h : key ∈ keys)
    (more : List Text) : (keys ++ key :: more).eraseDups = (keys ++ more).eraseDups := by
  rw [List.eraseDups_append, List.eraseDups_append]
  simp [List.removeAll, h]

/-- A key keeps the place at which it was first given. -/
theorem keys_insertAll (s : Settings) (es : List Entry) :
    (s.insertAll es).keys = (s.keys ++ es.map Prod.fst).eraseDups := by
  induction es generalizing s with
  | nil =>
    rw [insertAll_nil, List.map_nil, List.append_nil]
    exact (eraseDups_of_nodup s.distinct).symm
  | cons e es ih =>
    rw [insertAll_cons, ih, keys_insert]
    split
    · next h => exact (eraseDups_append_of_mem h _).symm
    · rw [List.append_assoc]
      rfl

/-- A key has the value that it was given last. -/
theorem get?_insertAll (s : Settings) (es : List Entry) (key : Text) :
    (s.insertAll es).get? key = (valueOf? key es.reverse).or (s.get? key) := by
  induction es generalizing s with
  | nil => rfl
  | cons e es ih =>
    rw [insertAll_cons, ih, get?_insert, List.reverse_cons, valueOf?_append, Option.or_assoc]
    congr 1
    by_cases h : key = e.1
    · rw [if_pos h, h]
      simp [valueOf?]
    · rw [if_neg h]
      simp [valueOf?, Ne.symm h]

theorem mem_keys_insertAll (s : Settings) (es : List Entry) (key : Text) :
    key ∈ (s.insertAll es).keys ↔ key ∈ s.keys ∨ key ∈ es.map Prod.fst := by
  rw [keys_insertAll, List.mem_eraseDups, List.mem_append]

private theorem put_of_notMem {key : Text} {es : List Entry} (h : key ∉ es.map Prod.fst)
    (value : Text) : put key value es = es ++ [(key, value)] := by
  induction es with
  | nil => rfl
  | cons e rest ih =>
    rw [List.map_cons, List.mem_cons, not_or] at h
    rw [put, if_neg (Ne.symm h.1), ih h.2]
    rfl

/-- Keys that are new and do not repeat are added behind the others. -/
theorem entries_insertAll {s : Settings} {es : List Entry} (hes : (es.map Prod.fst).Nodup)
    (hs : ∀ e ∈ es, e.1 ∉ s.keys) : (s.insertAll es).entries = s.entries ++ es := by
  induction es generalizing s with
  | nil => simp
  | cons e es ih =>
    rw [List.map_cons, List.nodup_cons] at hes
    have he : e.1 ∉ s.keys := hs e List.mem_cons_self
    have hrest : ∀ f ∈ es, f.1 ∉ (s.insert e.1 e.2).keys := by
      intro f hf
      rw [keys_insert, if_neg he, List.mem_append, List.mem_singleton, not_or]
      exact ⟨hs f (List.mem_cons_of_mem _ hf), fun h => hes.1 (h ▸ List.mem_map_of_mem hf)⟩
    rw [insertAll_cons, ih hes.2 hrest]
    show put e.1 e.2 s.entries ++ es = s.entries ++ e :: es
    rw [put_of_notMem he, List.append_assoc]
    rfl

/-! ## Keys in front of keys -/

/-- An entry whose key has `block` and a dot in front. -/
def qualify (block : Text) (e : Entry) : Entry := (block ++ '.' :: e.1, e.2)

theorem map_fst_qualify (block : Text) (es : List Entry) :
    (es.map (qualify block)).map Prod.fst =
      (es.map Prod.fst).map fun key => block ++ '.' :: key := by
  rw [List.map_map, List.map_map]
  rfl

theorem append_dot_inj {block key other : Text} :
    block ++ '.' :: key = block ++ '.' :: other ↔ key = other := by
  rw [List.append_cancel_left_eq, List.cons.injEq]
  exact and_iff_right rfl

theorem nodup_qualify (block : Text) {es : List Entry} (h : (es.map Prod.fst).Nodup) :
    ((es.map (qualify block)).map Prod.fst).Nodup := by
  rw [map_fst_qualify]
  exact List.Pairwise.map _ (fun _ _ hne he => hne (append_dot_inj.1 he)) h

/-- The settings with `block` and a dot in front of each key. -/
def qualified (block : Text) (s : Settings) : Settings :=
  ⟨s.entries.map (qualify block), nodup_qualify block s.distinct⟩

theorem put_qualify (block key value : Text) (es : List Entry) :
    put (block ++ '.' :: key) value (es.map (qualify block)) =
      (put key value es).map (qualify block) := by
  induction es with
  | nil => rfl
  | cons e rest ih =>
    have hkey : (qualify block e).1 = block ++ '.' :: key ↔ e.1 = key := append_dot_inj
    rw [List.map_cons, put, put]
    by_cases h : e.1 = key
    · rw [if_pos (hkey.2 h), if_pos h]
      rfl
    · rw [if_neg fun he => h (hkey.1 he), if_neg h, ih]
      rfl

theorem qualified_insertAll (block : Text) (s : Settings) (es : List Entry) :
    (s.insertAll es).qualified block = (s.qualified block).insertAll (es.map (qualify block)) := by
  induction es generalizing s with
  | nil => rfl
  | cons e es ih =>
    have hput : (s.insert e.1 e.2).qualified block =
        (s.qualified block).insert (qualify block e).1 (qualify block e).2 :=
      Settings.ext (put_qualify block e.1 e.2 s.entries).symm
    rw [insertAll_cons, ih, List.map_cons, insertAll_cons, hput]

end LayeredSettings.Settings

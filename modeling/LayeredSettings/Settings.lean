import LayeredSettings.Text.Basic

/-!
# Settings

Settings map keys to values and remember the order in which the keys were first given. Giving a
key again changes its value and leaves its place: `get?_insert` and `keys_insert` say so.
-/

namespace LayeredSettings

/-- A key with its value. -/
abbrev Entry := Text × Text

/-- Entries in the order their keys were first given; no key occurs twice. -/
structure Settings where
  entries : List Entry
  distinct : (entries.map Prod.fst).Nodup

namespace Settings

/-! ## Entry lists -/

/-- The entries with `key` set to `value`, in its old place or else at the end. -/
def put (key value : Text) : List Entry → List Entry
  | [] => [(key, value)]
  | e :: rest => if e.1 = key then (key, value) :: rest else e :: put key value rest

theorem map_fst_put (key value : Text) (es : List Entry) :
    (put key value es).map Prod.fst =
      if key ∈ es.map Prod.fst then es.map Prod.fst else es.map Prod.fst ++ [key] := by
  induction es with
  | nil => simp [put]
  | cons e rest ih =>
    unfold put
    by_cases h : e.1 = key
    · simp [h]
    · have h' : key ≠ e.1 := fun g => h g.symm
      simp only [if_neg h, List.map_cons, ih, List.mem_cons, h', false_or]
      split <;> simp

theorem nodup_put (key value : Text) {es : List Entry} (h : (es.map Prod.fst).Nodup) :
    ((put key value es).map Prod.fst).Nodup := by
  rw [map_fst_put]
  split
  · exact h
  · next hk =>
    rw [List.nodup_append]
    refine ⟨h, by simp, ?_⟩
    intro a ha b hb hab
    simp only [List.mem_singleton] at hb
    exact hk (hb ▸ hab ▸ ha)

/-- The value of the first entry for `key`. -/
def valueOf? (key : Text) : List Entry → Option Text
  | [] => none
  | e :: rest => if e.1 = key then some e.2 else valueOf? key rest

theorem valueOf?_put (k key value : Text) (es : List Entry) :
    valueOf? k (put key value es) = if k = key then some value else valueOf? k es := by
  induction es with
  | nil => by_cases h : k = key <;> simp [put, valueOf?, h, Ne.symm]
  | cons e rest ih =>
    unfold put
    by_cases h : e.1 = key
    · by_cases hk : k = key <;> simp [valueOf?, h, hk, eq_comm]
    · by_cases hk : e.1 = k
      · subst hk
        simp [valueOf?, h]
      · simp [valueOf?, h, hk, ih]

/-! ## Settings -/

def empty : Settings := ⟨[], List.nodup_nil⟩

instance : Inhabited Settings := ⟨empty⟩

instance : DecidableEq Settings := fun s t =>
  if h : s.entries = t.entries then isTrue (by cases s; cases t; cases h; rfl)
  else isFalse fun g => h (g ▸ rfl)

@[ext] theorem ext {s t : Settings} (h : s.entries = t.entries) : s = t := by
  cases s; cases t; cases h; rfl

def get? (s : Settings) (key : Text) : Option Text := valueOf? key s.entries

def keys (s : Settings) : List Text := s.entries.map Prod.fst

def size (s : Settings) : Nat := s.entries.length

/-- Sets `key` to `value`; a key that is already set keeps its place. -/
def insert (s : Settings) (key value : Text) : Settings :=
  ⟨put key value s.entries, nodup_put key value s.distinct⟩

def erase (s : Settings) (key : Text) : Settings :=
  ⟨s.entries.filter (·.1 ≠ key),
    List.Nodup.sublist (List.Sublist.map Prod.fst List.filter_sublist) s.distinct⟩

def insertAll (s : Settings) (es : List Entry) : Settings :=
  es.foldl (fun s e => s.insert e.1 e.2) s

/-- The settings that a list of entries gives, later entries overriding earlier ones. -/
def ofList (es : List Entry) : Settings := empty.insertAll es

theorem get?_insert (s : Settings) (key value k : Text) :
    (s.insert key value).get? k = if k = key then some value else s.get? k :=
  valueOf?_put k key value s.entries

theorem keys_insert (s : Settings) (key value : Text) :
    (s.insert key value).keys = if key ∈ s.keys then s.keys else s.keys ++ [key] :=
  map_fst_put key value s.entries

@[simp] theorem get?_empty (k : Text) : empty.get? k = none := rfl

@[simp] theorem keys_empty : empty.keys = [] := rfl

end Settings

end LayeredSettings

import LayeredSettings.Proofs.Expansion.Renaming
import LayeredSettings.Proofs.Expansion.Stack
import LayeredSettings.Proofs.Key
import LayeredSettings.Proofs.Settings
import LayeredSettings.Store.Construction
import LayeredSettings.Store.Lookup

/-!
# Moving a block of settings

The markers of a block may all be relative and climb no further than the block's own root. What
the block's settings resolve to is then a matter of the block alone: resolving in the block moved
under a key is resolving in the block, and putting the key in front of what is missing
(`resolve_qualify`). Moved under two keys, the block gives results that differ in no other way
(`resolve_relocated`).
-/

namespace LayeredSettings

open Expansion
open Settings (qualify)

/-- The error as it is in a block: a missing key is a key of the block. -/
def Expansion.Error.inBlock (block : Text) : Error → Error
  | .missing key => .missing (block ++ '.' :: key)
  | e => e

namespace Settings

theorem valueOf?_qualify (block key : Text) (es : List Entry) :
    valueOf? (block ++ '.' :: key) (es.map (qualify block)) = valueOf? key es := by
  induction es with
  | nil => rfl
  | cons e rest ih =>
    have hkey : (qualify block e).1 = block ++ '.' :: key ↔ e.1 = key := append_dot_inj
    rw [List.map_cons, valueOf?, valueOf?, ih]
    by_cases h : e.1 = key
    · rw [if_pos (hkey.2 h), if_pos h]
      rfl
    · rw [if_neg fun he => h (hkey.1 he), if_neg h]

theorem ofList_qualify (block : Text) (es : List Entry) :
    ofList (es.map (qualify block)) = (ofList es).qualified block :=
  (qualified_insertAll block empty es).symm

theorem mem_of_get?_ofList {key value : Text} {es : List Entry}
    (h : (ofList es).get? key = some value) : (key, value) ∈ es := by
  rw [ofList, get?_insertAll, get?_empty, Option.or_none] at h
  exact List.mem_reverse.1 (mem_of_valueOf?_eq_some h)

end Settings

namespace Store

/-- The markers in the value of an entry are relative, and none of them climbs out of the block in
which the entry has its key. -/
def Confined (e : Entry) : Prop :=
  ∀ marker ∈ Template.markers e.2,
    0 < Key.ascent marker ∧ Key.ascent marker ≤ (Key.segments e.1).length

/-- Two results that are equal but for the blocks that a missing key is named in. -/
inductive Relocated (p q : Text) : Except Error Text → Except Error Text → Prop
  | text (t : Text) : Relocated p q (.ok t) (.ok t)
  | missing (key : Text) :
      Relocated p q (.error (.missing (p ++ '.' :: key))) (.error (.missing (q ++ '.' :: key)))
  | error {e : Error} : (∀ key, e ≠ .missing key) → Relocated p q (.error e) (.error e)

theorem relocated_inBlock (p q : Text) (r : Except Error Text) :
    Relocated p q (r.mapError (.inBlock p)) (r.mapError (.inBlock q)) := by
  cases r with
  | ok t => exact .text t
  | error e =>
    cases e with
    | missing key => exact .missing key
    | relative fault => exact .error fun _ h => Error.noConfusion h
    | malformed template => exact .error fun _ h => Error.noConfusion h
    | unterminated template => exact .error fun _ h => Error.noConfusion h
    | depthLimit ceiling => exact .error fun _ h => Error.noConfusion h

variable (host : Host) {es : List Entry} {block : Text}

theorem get_qualify (es : List Entry) (block key : Text) :
    (ofEntries (es.map (qualify block))).get host (block ++ '.' :: key) =
      ((ofEntries es).get host key).mapError (.inBlock block) := by
  have hquery : (ofEntries (es.map (qualify block))).query host (block ++ '.' :: key) =
      (ofEntries es).query host key := by
    show (Settings.ofList _).get? _ = (Settings.ofList es).get? key
    rw [Settings.ofList_qualify]
    exact Settings.valueOf?_qualify block key _
  rw [get, get, hquery]
  cases (ofEntries es).query host key <;> rfl

theorem mem_of_get_ofEntries {key value : Text}
    (h : (ofEntries es).get host key = .ok value) : (key, value) ∈ es := by
  rw [get] at h
  split at h
  · next hquery =>
    cases h
    exact Settings.mem_of_get?_ofList hquery
  · cases h

/-- The markers of a moved block are answered as those of the block. -/
theorem renaming_qualify (hes : ∀ e ∈ es, Confined e) (hblock : block ≠ []) :
    Renaming ((ofEntries es).resolver host) ((ofEntries (es.map (qualify block))).resolver host)
      (block ++ '.' :: ·) (.inBlock block) fun base template => Confined (base, template) where
  ofTemplate := by
    intro template e
    cases e <;> rfl
  answer := by
    intro base template hinv marker hm
    obtain ⟨hpos, hle⟩ := hinv marker hm
    rw [resolver, resolver, Key.relative_append_dot hblock hpos hle]
    cases Key.relative base marker with
    | error fault => rfl
    | ok target =>
      show ((ofEntries (es.map (qualify block))).get host (block ++ '.' :: target)).map _ = _
      rw [get_qualify]
      show _ = (((ofEntries es).get host target).map _ |>.map _).mapError _
      cases (ofEntries es).get host target <;> rfl
  keeps := by
    intro base template _ marker _ value inner h
    rw [resolver] at h
    split at h
    · cases h
    · cases hget : (ofEntries es).get host _ with
      | error e => rw [hget] at h; cases h
      | ok v =>
        rw [hget] at h
        cases h
        exact hes _ (mem_of_get_ofEntries host hget)

/-- Resolving in a moved block is resolving in the block. -/
theorem resolve_qualify (hes : ∀ e ∈ es, Confined e) (hblock : block ≠ []) (ceiling : Ceiling)
    (key : Text) :
    (ofEntries (es.map (qualify block))).resolve host ceiling (block ++ '.' :: key) =
      ((ofEntries es).resolve host ceiling key).mapError (.inBlock block) := by
  rw [resolve, resolve, get_qualify]
  cases hget : (ofEntries es).get host key with
  | error e => rfl
  | ok value =>
    have hvalue : Confined (key, value) := hes _ (mem_of_get_ofEntries host hget)
    show (Expansion.expand _ ceiling (block ++ '.' :: key) value).result = _
    rw [expand_eq_meaning, meaning_ofText,
      evaluate_rename (renaming_qualify host hes hblock) rfl rfl hvalue, Trace.result_rename,
      ← meaning_ofText, ← expand_eq_meaning]

/-- A block of settings whose markers stay inside it gives the same texts and the same errors
wherever it is put, a missing key being named where it was looked for. -/
theorem resolve_relocated (hes : ∀ e ∈ es, Confined e) {p q : Text} (hp : p ≠ []) (hq : q ≠ [])
    (ceiling : Ceiling) (key : Text) :
    Relocated p q ((ofEntries (es.map (qualify p))).resolve host ceiling (p ++ '.' :: key))
      ((ofEntries (es.map (qualify q))).resolve host ceiling (q ++ '.' :: key)) := by
  rw [resolve_qualify host hes hp, resolve_qualify host hes hq]
  exact relocated_inBlock p q _

/-! ### A block with a way to its root -/

private theorem confined_markerText {key marker : Text} (hm : '\x7d' ∉ marker)
    (hpos : 0 < Key.ascent marker) (hle : Key.ascent marker ≤ (Key.segments key).length) :
    Confined (key, Template.markerText marker) := by
  intro m hmem
  rw [Template.markers_markerText hm, List.mem_singleton] at hmem
  rw [hmem]
  exact ⟨hpos, hle⟩

private theorem confined_neighbours :
    ∀ e ∈ [("a.b".toList, Template.markerText ".c".toList),
      ("a.c".toList, Template.markerText "..d".toList)], Confined e := by
  intro e he
  rcases he with _ | ⟨_, _ | ⟨_, hnil⟩⟩
  · exact confined_markerText (by decide) (by decide) (by decide)
  · exact confined_markerText (by decide) (by decide) (by decide)
  · cases hnil

/-- Under `p` as under `q.r`, the value of `a.b` leads by way of `a.c` to a key `d` of the block
that has no value. -/
theorem resolve_relocated_neighbours :
    (∀ e ∈ [("a.b".toList, Template.markerText ".c".toList),
      ("a.c".toList, Template.markerText "..d".toList)], Confined e) ∧
    "p".toList ≠ [] ∧ "q.r".toList ≠ [] ∧
    Relocated "p".toList "q.r".toList
      ((ofEntries [("p.a.b".toList, Template.markerText ".c".toList),
        ("p.a.c".toList, Template.markerText "..d".toList)]).resolve ⟨.empty, .empty⟩ .standard
          "p.a.b".toList)
      ((ofEntries [("q.r.a.b".toList, Template.markerText ".c".toList),
        ("q.r.a.c".toList, Template.markerText "..d".toList)]).resolve ⟨.empty, .empty⟩ .standard
          "q.r.a.b".toList) := by
  refine ⟨confined_neighbours, by decide, by decide, ?_⟩
  exact resolve_relocated ⟨.empty, .empty⟩ confined_neighbours (by decide) (by decide) .standard
    "a.b".toList

end Store

end LayeredSettings

import LayeredSettings.Loader
import LayeredSettings.Proofs.Document.Parsing

/-!
# Composing stores

Composing puts the layers of one store over those of another. Stores so composed form a monoid,
with the empty store as its unit (`compose_assoc`, `empty_compose`, `compose_empty`), of which
`properLayers` is a homomorphism to lists. Stores come from the host, from pairs and from texts and
sources loaded over defaults; all of them are chains of proper layers (`Reachable.isChain`).
-/

namespace LayeredSettings.Store

/-! ## The monoid -/

variable (a b c s : Store) (ls ms : List Store)

theorem layers_ne_nil : s.layers ≠ [] := by
  cases s <;> simp [layers]

theorem atop_append : atop (ls ++ ms) s = atop ls (atop ms s) := List.foldr_append

theorem layers_atop : (atop ls s).layers = ls ++ s.layers := by
  induction ls with
  | nil => rfl
  | cons l ls ih =>
    show l :: (atop ls s).layers = l :: (ls ++ s.layers)
    rw [ih]

theorem atop_layers_ne_empty : atop a.layers b ≠ empty := by
  intro h
  cases hl : a.layers with
  | nil => exact layers_ne_nil a hl
  | cons l ls =>
    rw [hl] at h
    cases h

theorem empty_compose : empty.compose s = s := by
  unfold compose
  split
  · next h => exact h.symm
  · rw [if_pos rfl]

theorem compose_empty : s.compose empty = s := by
  unfold compose
  rw [if_pos rfl]

theorem compose_eq_atop (ha : a ≠ empty) (hb : b ≠ empty) : a.compose b = atop a.layers b := by
  unfold compose
  rw [if_neg hb, if_neg ha]

theorem compose_assoc : (a.compose b).compose c = a.compose (b.compose c) := by
  by_cases ha : a = empty
  · rw [ha, empty_compose, empty_compose]
  by_cases hb : b = empty
  · rw [hb, compose_empty, empty_compose]
  by_cases hc : c = empty
  · rw [hc, compose_empty, compose_empty]
  have hab : a.compose b = atop a.layers b := compose_eq_atop a b ha hb
  have hbc : b.compose c = atop b.layers c := compose_eq_atop b c hb hc
  calc (a.compose b).compose c
      = atop (a.compose b).layers c :=
        compose_eq_atop _ c (hab ▸ atop_layers_ne_empty a b) hc
    _ = atop (a.layers ++ b.layers) c := by rw [hab, layers_atop]
    _ = atop a.layers (b.compose c) := by rw [atop_append, hbc]
    _ = a.compose (b.compose c) :=
        (compose_eq_atop a _ ha (hbc ▸ atop_layers_ne_empty b c)).symm

/-- The layers of a store, of which the empty store has none. -/
def properLayers (s : Store) : List Store := if s = empty then [] else s.layers

theorem properLayers_empty : empty.properLayers = [] := if_pos rfl

theorem properLayers_of_ne (h : s ≠ empty) : s.properLayers = s.layers := if_neg h

theorem properLayers_compose :
    (a.compose b).properLayers = a.properLayers ++ b.properLayers := by
  by_cases ha : a = empty
  · rw [ha, empty_compose, properLayers_empty, List.nil_append]
  by_cases hb : b = empty
  · rw [hb, compose_empty, properLayers_empty, List.append_nil]
  rw [compose_eq_atop a b ha hb, properLayers_of_ne _ (atop_layers_ne_empty a b),
    properLayers_of_ne a ha, properLayers_of_ne b hb, layers_atop]

/-- The layers put over a store are asked before it. -/
theorem query_atop_layers (host : Host) (key : Text) :
    (atop a.layers b).query host key = (a.query host key).or (b.query host key) := by
  induction a with
  | layered primary fallback _ hf =>
    show (primary.query host key).or ((atop fallback.layers b).query host key) = _
    rw [hf, ← Option.or_assoc]
    rfl
  | _ => rfl

theorem query_compose (host : Host) (key : Text) :
    (a.compose b).query host key = (a.query host key).or (b.query host key) := by
  by_cases ha : a = empty
  · rw [ha, empty_compose]
    rfl
  by_cases hb : b = empty
  · rw [hb, compose_empty]
    exact Option.or_none.symm
  rw [compose_eq_atop a b ha hb, query_atop_layers]

/-! ## Chains -/

def isLayered : Store → Bool
  | layered _ _ => true
  | _ => false

/-- A chain of layers: none of them is layered itself, and none is the empty store. -/
def IsChain (s : Store) : Prop := ∀ l ∈ s.properLayers, l.isLayered = false ∧ l ≠ empty

variable {a b s : Store}

theorem isChain_of_not_layered (h : s.isLayered = false) : s.IsChain := by
  intro l hl
  unfold properLayers at hl
  split at hl
  · cases hl
  · next hne =>
    have hs : s.layers = [s] := by
      cases s with
      | layered primary fallback => cases h
      | _ => rfl
    rw [hs, List.mem_singleton] at hl
    rw [hl]
    exact ⟨h, hne⟩

theorem IsChain.compose (ha : a.IsChain) (hb : b.IsChain) : (a.compose b).IsChain := by
  intro l hl
  rw [properLayers_compose, List.mem_append] at hl
  exact hl.elim (ha l) (hb l)

theorem IsChain.withDefaults {defaults : Option Store} (hs : s.IsChain)
    (hd : ∀ d ∈ defaults, d.IsChain) : (s.withDefaults defaults).IsChain := by
  cases defaults with
  | none => exact hs
  | some d => exact hs.compose (hd d rfl)

/-- A store and the stores it is made of, on all levels. -/
def parts : Store → List Store
  | layered primary fallback => layered primary fallback :: (primary.parts ++ fallback.parts)
  | s => [s]

theorem layered_notMem_parts (h : s.isLayered = false) (primary fallback : Store) :
    layered primary fallback ∉ s.parts := by
  intro hmem
  cases s with
  | layered p f => cases h
  | _ =>
    cases List.mem_singleton.1 hmem

/-- Wherever a chain is layered, the primary is not, and no layer is the empty store. -/
theorem IsChain.of_mem_parts (hs : s.IsChain) {primary fallback : Store}
    (h : layered primary fallback ∈ s.parts) :
    primary.isLayered = false ∧ empty ∉ (layered primary fallback).layers := by
  induction s with
  | layered p f _ ihf =>
    have hproper : (layered p f).properLayers = p :: f.layers := properLayers_of_ne _ (by simp)
    have hp : p.isLayered = false ∧ p ≠ empty := hs p (hproper ▸ List.mem_cons_self)
    have hf : f.IsChain := by
      intro l hl
      unfold properLayers at hl
      split at hl
      · cases hl
      · exact hs l (hproper ▸ List.mem_cons_of_mem p hl)
    -- Only the fallback can be layered again, and it is a chain itself.
    rw [parts, List.mem_cons, List.mem_append] at h
    rcases h with h | h | h
    · cases h
      refine ⟨hp.1, fun hmem => ?_⟩
      exact (hs empty (hproper ▸ hmem)).2 rfl
    · exact absurd h (layered_notMem_parts hp.1 primary fallback)
    · exact ihf hf h
  | _ => exact absurd h (layered_notMem_parts rfl primary fallback)

/-! ## Stores that can be made -/

/-- The stores made by the host, of pairs, from texts and sources, and by composing such stores. -/
inductive Reachable : Store → Prop
  | empty : Reachable empty
  | system : Reachable system
  | environment : Reachable environment
  | ofPairs {pairs : List (Datum × Datum)} {s : Store} : ofPairs pairs = .ok s → Reachable s
  | ofArguments {args : List Datum} {s : Store} : ofArguments args = .ok s → Reachable s
  | ofText {text source : Text} {strict : Bool} {s : Store} :
      ofText text source strict = .ok s → Reachable s
  | load {w : World} {o : LoadOptions} {source : Source} {s : Store} :
      (load w o source).result = .ok s → Reachable s
  | loaderText {o : LoadOptions} {text source : Text} {defaults : Option Store} {s : Store} :
      (∀ d ∈ defaults, Reachable d) → Loader.loadText o text source defaults = .ok s → Reachable s
  | loaderLoad {w : World} {o : LoadOptions} {source : Source} {defaults : Option Store}
      {s : Store} : (∀ d ∈ defaults, Reachable d) →
      (Loader.load w o source defaults).result = .ok s → Reachable s
  | compose {s defaults : Store} : Reachable s → Reachable defaults →
      Reachable (s.compose defaults)

theorem mapped_of_ofPairs {pairs : List (Datum × Datum)} (h : ofPairs pairs = .ok s) :
    ∃ settings, s = mapped settings := by
  unfold ofPairs at h
  cases hm : mappingOf pairs with
  | error f => rw [hm] at h; cases h
  | ok mapping =>
    rw [hm] at h
    change (textual mapping).bind (fun es => .ok (ofEntries es)) = .ok s at h
    cases ht : textual mapping with
    | error f => rw [ht] at h; cases h
    | ok es =>
      rw [ht] at h
      cases h
      exact ⟨_, rfl⟩

theorem mapped_of_ofArguments {args : List Datum} (h : ofArguments args = .ok s) :
    ∃ settings, s = mapped settings := by
  unfold ofArguments at h
  split at h
  · cases h
  · exact mapped_of_ofPairs h

theorem mapped_of_ofText {text source : Text} {strict : Bool}
    (h : ofText text source strict = .ok s) : ∃ settings, s = mapped settings := by
  unfold ofText at h
  cases hp : parseText text source .empty strict with
  | error f => rw [hp] at h; cases h
  | ok settings =>
    rw [hp] at h
    cases h
    exact ⟨settings, rfl⟩

theorem mapped_of_load {w : World} {o : LoadOptions} {source : Source}
    (h : (load w o source).result = .ok s) : ∃ settings, s = mapped settings := by
  unfold load Attempt.andThen at h
  cases hp : (parseSource w o source).result with
  | error f => rw [hp] at h; cases h
  | ok settings =>
    rw [hp] at h
    cases h
    exact ⟨settings, rfl⟩

theorem withDefaults_of_loadText {o : LoadOptions} {text source : Text} {defaults : Option Store}
    (h : Loader.loadText o text source defaults = .ok s) :
    ∃ settings, s = (mapped settings).withDefaults defaults := by
  unfold Loader.loadText at h
  cases ht : ofText text source o.strict with
  | error f => rw [ht] at h; cases h
  | ok own =>
    rw [ht] at h
    cases h
    obtain ⟨settings, rfl⟩ := mapped_of_ofText ht
    exact ⟨settings, rfl⟩

theorem withDefaults_of_loaderLoad {w : World} {o : LoadOptions} {source : Source}
    {defaults : Option Store} (h : (Loader.load w o source defaults).result = .ok s) :
    ∃ settings, s = (mapped settings).withDefaults defaults := by
  have hloaded : ((load w o source).andThen fun own => .ok (own.withDefaults defaults)).result =
      .ok s := by
    unfold Loader.load at h
    split at h
    · cases h
    · exact h
    · split at h
      · cases h
      · exact h
      · cases h
  unfold Attempt.andThen at hloaded
  cases hl : (load w o source).result with
  | error f => rw [hl] at hloaded; cases hloaded
  | ok own =>
    rw [hl] at hloaded
    cases hloaded
    obtain ⟨settings, rfl⟩ := mapped_of_load hl
    exact ⟨settings, rfl⟩

theorem isChain_mapped (settings : Settings) : (mapped settings).IsChain :=
  isChain_of_not_layered rfl

theorem Reachable.isChain (h : Reachable s) : s.IsChain := by
  induction h with
  | empty => exact isChain_of_not_layered rfl
  | system => exact isChain_of_not_layered rfl
  | environment => exact isChain_of_not_layered rfl
  | ofPairs h =>
    obtain ⟨settings, rfl⟩ := mapped_of_ofPairs h
    exact isChain_mapped settings
  | ofArguments h =>
    obtain ⟨settings, rfl⟩ := mapped_of_ofArguments h
    exact isChain_mapped settings
  | ofText h =>
    obtain ⟨settings, rfl⟩ := mapped_of_ofText h
    exact isChain_mapped settings
  | load h =>
    obtain ⟨settings, rfl⟩ := mapped_of_load h
    exact isChain_mapped settings
  | loaderText _ h ih =>
    obtain ⟨settings, rfl⟩ := withDefaults_of_loadText h
    exact (isChain_mapped settings).withDefaults ih
  | loaderLoad _ h ih =>
    obtain ⟨settings, rfl⟩ := withDefaults_of_loaderLoad h
    exact (isChain_mapped settings).withDefaults ih
  | compose _ _ ha hb => exact ha.compose hb

/-- Composing appends the layers, so that it does not matter how stores are grouped, the empty
store changes nothing, and a store is asked before its defaults. Stores that can be made are chains:
wherever they are layered, the primary is not layered and no layer is the empty store. -/
theorem compose_appends_layers :
    (∀ s, Reachable s → ∀ primary fallback, layered primary fallback ∈ s.parts →
      primary.isLayered = false ∧ empty ∉ (layered primary fallback).layers) ∧
    (∀ a b : Store, (a.compose b).properLayers = a.properLayers ++ b.properLayers) ∧
    (∀ a b c : Store, (a.compose b).compose c = a.compose (b.compose c)) ∧
    (∀ a : Store, empty.compose a = a ∧ a.compose empty = a) ∧
    ∀ (host : Host) (key : Text) (a b : Store),
      (a.compose b).query host key = (a.query host key).or (b.query host key) := by
  refine ⟨?_, properLayers_compose, compose_assoc, ?_, ?_⟩
  · intro s hs primary fallback hmem
    exact hs.isChain.of_mem_parts hmem
  · intro a
    exact ⟨empty_compose a, compose_empty a⟩
  · intro host key a b
    exact query_compose a b host key

/-- Settings over the environment, which lies over the properties of the host. -/
def overHost : Store :=
  layered (mapped (.ofList [("a".toList, "1".toList)])) (layered environment system)

private theorem loadText_overHost :
    Loader.loadText {} "a = 1".toList "s".toList (some (environment.compose system)) =
      .ok overHost := by
  let body : Document.Body := [.assignment ⟨"a".toList, []⟩ ⟨"1".toList, []⟩]
  have htokens : (Lexemes.ofText "a = 1".toList).tokens? = some body.tokens := by decide +kernel
  have hparse : parseText "a = 1".toList "s".toList .empty false =
      .ok (Settings.empty.insertAll (body.entries [])) := parseText_of_body _ _ htokens
  unfold Loader.loadText ofText
  rw [hparse]
  rfl

theorem compose_appends_layers_overHost :
    Reachable overHost ∧ layered environment system ∈ overHost.parts ∧
      environment.isLayered = false ∧ empty ∉ (layered environment system).layers := by
  have hdefaults : ∀ d ∈ some (environment.compose system), Reachable d := by
    intro d hd
    cases hd
    exact .compose .environment .system
  have hreach : Reachable overHost := .loaderText hdefaults loadText_overHost
  have hmem : layered environment system ∈ overHost.parts := by
    simp [overHost, parts]
  exact ⟨hreach, hmem, compose_appends_layers.1 overHost hreach environment system hmem⟩

end LayeredSettings.Store

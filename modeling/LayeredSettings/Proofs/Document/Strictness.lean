import LayeredSettings.Proofs.Document.Parsing

/-!
# Strict documents

A strict document is read as any other until it assigns a key again. Reading goes statement by
statement (`Step`), each statement being taken when the token behind it is known, so that what is
assigned before a fault is the same in both modes.

1. A step of the document is a step of the reader (`read_step`), and where no step is possible the
   reader ends in a way that neither the mode nor the settings affect (`read_stuck`).
2. The assignments of a run are therefore made one after another before the run ends
   (`read_steps`); a strict reader refuses the first one that repeats a key (`assignAll_strict`).
-/

namespace LayeredSettings

namespace Document

/-! ## Assignments -/

/-- What a statement assigns, and where it starts. -/
structure Assignment where
  start : Position
  key : Text
  value : Text
  deriving DecidableEq, Repr

namespace Assignment

def entry (a : Assignment) : Entry := (a.key, a.value)

end Assignment

/-- The first assignment whose key an earlier one has. -/
def FirstRepetition (made : List Assignment) (a : Assignment) : Prop :=
  ∃ before after, made = before ++ a :: after ∧ (before.map Assignment.key).Nodup ∧
    a.key ∈ before.map Assignment.key

/-! ## Steps of a document -/

/-- The token behind a value is known, and the value does not go on with it. -/
def Followed (ending : Lexeme.Ending) : List Lexeme → Prop
  | [] => ∃ p, ending = .finish p
  | x :: _ => x.token ≠ .dot

/-- One step of a document: the open blocks and the lexemes before it, what it assigns, and the
open blocks and the lexemes behind it. -/
inductive Step (ending : Lexeme.Ending) :
    List Text → List Lexeme → List Assignment → List Text → List Lexeme → Prop
  | assignment {blocks : List Text} (key value : Words) {w : Text} {p : Position}
      {xs rest : List Lexeme} :
      .word w :: xs.map Lexeme.token = key.tokens ++ .equal :: value.tokens →
      Followed ending rest →
      Step ending blocks (⟨.word w, p⟩ :: (xs ++ rest))
        [⟨p, Key.under (blocks.headD []) key.text, value.text⟩] blocks rest
  | opening {blocks : List Text} (key : Words) {w : Text} {p : Position}
      {xs rest : List Lexeme} :
      .word w :: xs.map Lexeme.token = key.tokens ++ [.opening] →
      Step ending blocks (⟨.word w, p⟩ :: (xs ++ rest)) []
        (Key.under (blocks.headD []) key.text :: blocks) rest
  | closing {key : Text} {blocks : List Text} {p : Position} {rest : List Lexeme} :
      Step ending (key :: blocks) (⟨.closing, p⟩ :: rest) [] blocks rest

/-- A run of steps. -/
inductive Steps (ending : Lexeme.Ending) :
    List Text → List Lexeme → List Assignment → List Text → List Lexeme → Prop
  | refl {blocks : List Text} {ls : List Lexeme} : Steps ending blocks ls [] blocks ls
  | head {blocks blocks' blocks'' : List Text} {ls ls' ls'' : List Lexeme}
      {made more : List Assignment} :
      Step ending blocks ls made blocks' ls' → Steps ending blocks' ls' more blocks'' ls'' →
      Steps ending blocks ls (made ++ more) blocks'' ls''

/-- No step is possible. -/
def Stuck (ending : Lexeme.Ending) (blocks : List Text) (ls : List Lexeme) : Prop :=
  ∀ made blocks' ls', ¬ Step ending blocks ls made blocks' ls'

/-- What a document assigns, in order, up to its end or to the place where it is at fault. -/
def Assigns (ls : Lexemes) (made : List Assignment) : Prop :=
  ∃ blocks rest, Steps ls.ending [] ls.run made blocks rest ∧ Stuck ls.ending blocks rest

theorem Step.length_lt {ending : Lexeme.Ending} {blocks blocks' : List Text}
    {ls rest : List Lexeme} {made : List Assignment}
    (h : Step ending blocks ls made blocks' rest) : rest.length < ls.length := by
  cases h with
  | assignment => simp only [List.length_cons, List.length_append]; omega
  | opening => simp only [List.length_cons, List.length_append]; omega
  | closing => simp only [List.length_cons]; omega

/-- Every document has a run that cannot go on. -/
theorem exists_steps (ending : Lexeme.Ending) (blocks : List Text) (ls : List Lexeme) :
    ∃ made blocks' rest, Steps ending blocks ls made blocks' rest ∧ Stuck ending blocks' rest := by
  induction hn : ls.length using Nat.strongRecOn generalizing blocks ls with
  | ind n ih =>
    subst hn
    by_cases hstuck : Stuck ending blocks ls
    · exact ⟨[], blocks, ls, .refl, hstuck⟩
    · unfold Stuck at hstuck
      simp only [Classical.not_forall, Classical.not_not] at hstuck
      obtain ⟨made, blocks', ls', hstep⟩ := hstuck
      obtain ⟨more, blocks'', rest, hsteps, hend⟩ := ih _ hstep.length_lt blocks' ls' rfl
      exact ⟨made ++ more, blocks'', rest, .head hstep hsteps, hend⟩

theorem exists_assigns (ls : Lexemes) : ∃ made, Assigns ls made := by
  obtain ⟨made, blocks, rest, hsteps, hstuck⟩ := exists_steps ls.ending [] ls.run
  exact ⟨made, blocks, rest, hsteps, hstuck⟩

/-! ## Steps and statements -/

section Statements

variable {ending : Lexeme.Ending} {w : Text}

theorem moreWords_of_followed {ws : List Text} {xs rest : List Lexeme}
    (h : xs.map Lexeme.token = Words.moreTokens ws) (hrest : Followed ending rest) :
    moreWords ending (xs ++ rest) = .ok (ws, rest) := by
  induction ws generalizing xs with
  | nil =>
    obtain rfl := List.map_eq_nil_iff.1 h
    rw [List.nil_append]
    unfold moreWords
    split
    · obtain ⟨p, rfl⟩ := hrest
      rfl
    · exact absurd rfl hrest
    · exact absurd rfl hrest
    · rfl
  | cons w ws ih =>
    obtain ⟨⟨_, p⟩, xs₁, rfl, rfl, h₁⟩ := List.map_eq_cons_iff.1 h
    obtain ⟨⟨_, q⟩, xs₂, rfl, rfl, h₂⟩ := List.map_eq_cons_iff.1 h₁
    rw [List.cons_append, List.cons_append, moreWords, ih h₂]

theorem statement_of_assignment {key value : Words} {xs rest : List Lexeme}
    (h : .word w :: xs.map Lexeme.token = key.tokens ++ .equal :: value.tokens)
    (hrest : Followed ending rest) :
    statement ending w (xs ++ rest) = .ok (.assignment key.toList value.toList, rest) := by
  obtain ⟨k, ks⟩ := key
  obtain ⟨hw, hxs⟩ := List.cons.inj h
  cases hw
  obtain ⟨ys, zs, rfl, hys, hzs⟩ := List.map_eq_append_iff.1 hxs
  obtain ⟨⟨_, p⟩, zs₁, rfl, rfl, h₁⟩ := List.map_eq_cons_iff.1 hzs
  obtain ⟨⟨_, q⟩, zs₂, rfl, rfl, h₂⟩ := List.map_eq_cons_iff.1 h₁
  have hkey : moreWords ending (ys ++ ⟨.equal, p⟩ :: ⟨.word value.first, q⟩ :: (zs₂ ++ rest)) =
      .ok (ks, ⟨.equal, p⟩ :: ⟨.word value.first, q⟩ :: (zs₂ ++ rest)) :=
    moreWords_of_followed hys (by simp [Followed])
  have hvalue : moreWords ending (zs₂ ++ rest) = .ok (value.more, rest) :=
    moreWords_of_followed h₂ hrest
  unfold statement
  rw [List.append_assoc, List.cons_append, List.cons_append, hkey]
  simp only [afterKey, hvalue]
  rfl

theorem statement_of_opening {key : Words} {xs rest : List Lexeme}
    (h : .word w :: xs.map Lexeme.token = key.tokens ++ [.opening]) :
    statement ending w (xs ++ rest) = .ok (.block key.toList, rest) := by
  obtain ⟨k, ks⟩ := key
  obtain ⟨hw, hxs⟩ := List.cons.inj h
  cases hw
  obtain ⟨ys, zs, rfl, hys, hzs⟩ := List.map_eq_append_iff.1 hxs
  obtain ⟨⟨_, p⟩, zs₁, rfl, rfl, h₁⟩ := List.map_eq_cons_iff.1 hzs
  obtain rfl := List.map_eq_nil_iff.1 h₁
  have hkey : moreWords ending (ys ++ ⟨.opening, p⟩ :: rest) = .ok (ks, ⟨.opening, p⟩ :: rest) :=
    moreWords_of_followed hys (by simp [Followed])
  unfold statement
  rw [List.append_assoc, List.cons_append, List.nil_append, hkey]
  simp only [afterKey]
  rfl

theorem followed_of_moreWords {ls rest : List Lexeme} {ws : List Text}
    (h : moreWords ending ls = .ok (ws, rest)) :
    Followed ending rest ∧ ∃ xs, ls = xs ++ rest ∧ xs.map Lexeme.token = Words.moreTokens ws := by
  fun_induction moreWords ending ls generalizing ws rest with
  | case1 p he =>
    cases h
    exact ⟨⟨p, he⟩, [], rfl, rfl⟩
  | case2 _ => cases h
  | case3 p w q ls ws' rest' hr ih =>
    cases h
    obtain ⟨hrest, xs, rfl, hxs⟩ := ih hr
    refine ⟨hrest, ⟨.dot, p⟩ :: ⟨.word w, q⟩ :: xs, rfl, ?_⟩
    rw [List.map_cons, List.map_cons, hxs]
    rfl
  | case4 p w q ls e hr ih => cases h
  | case5 p ls _ => cases h
  | case6 ls hnil hdot hword =>
    cases h
    refine ⟨?_, [], rfl, rfl⟩
    cases ls with
    | nil => exact absurd rfl hnil
    | cons x ls =>
      obtain ⟨token, p⟩ := x
      intro he
      obtain rfl : token = .dot := he
      exact hword p ls rfl

/-- A statement that is read is a step. -/
theorem step_of_statement (blocks : List Text) (p : Position) {ls rest : List Lexeme}
    {st : Statement} (h : statement ending w ls = .ok (st, rest)) :
    ∃ made blocks', Step ending blocks (⟨.word w, p⟩ :: ls) made blocks' rest := by
  unfold statement at h
  split at h
  · next ws ls' hws =>
    obtain ⟨-, xs, rfl, hxs⟩ := followed_of_moreWords hws
    unfold afterKey at h
    split at h
    · next _ q v r ls' =>
      split at h
      · next vs rest' hvs =>
        cases h
        obtain ⟨hrest, ys, rfl, hys⟩ := followed_of_moreWords hvs
        have hstep : Step ending blocks
            (⟨.word w, p⟩ :: ((xs ++ ⟨.equal, q⟩ :: ⟨.word v, r⟩ :: ys) ++ rest)) _ blocks rest :=
          .assignment ⟨w, ws⟩ ⟨v, vs⟩ (by simp [Words.tokens, hxs, hys]) hrest
        rw [List.append_assoc] at hstep
        exact ⟨_, _, hstep⟩
      · cases h
    · cases h
    · next _ q ls' =>
      cases h
      have hstep : Step ending blocks (⟨.word w, p⟩ :: ((xs ++ [⟨.opening, q⟩]) ++ rest)) [] _
          rest := .opening ⟨w, ws⟩ (by simp [Words.tokens, hxs])
      rw [List.append_assoc] at hstep
      exact ⟨_, _, hstep⟩
    · cases h
  · cases h

end Statements

/-! ## Steps and the reader -/

namespace Draft

/-- Assigns one thing after another. -/
def assignAll (strict : Bool) (d : Draft) : List Assignment → Except Fault Draft
  | [] => .ok d
  | a :: made =>
    match d.assign strict a.start a.key a.value with
    | .error e => .error e
    | .ok d' => d'.assignAll strict made

theorem assignAll_append (strict : Bool) (d : Draft) (made more : List Assignment) :
    d.assignAll strict (made ++ more) =
      match d.assignAll strict made with
      | .error e => .error e
      | .ok d' => d'.assignAll strict more := by
  induction made generalizing d with
  | nil => rfl
  | cons a made ih =>
    rw [List.cons_append, assignAll, assignAll]
    cases d.assign strict a.start a.key a.value with
    | error e => rfl
    | ok d' => exact ih d'

/-- Where keys may be assigned again, all is assigned. -/
theorem assignAll_lenient (d : Draft) (made : List Assignment) :
    d.assignAll false made = .ok (d.extend (made.map Assignment.entry)) := by
  induction made generalizing d with
  | nil => rfl
  | cons a made ih =>
    rw [assignAll, List.map_cons, ← List.singleton_append, extend_append, ← ih]
    rfl

/-- A strict draft takes all assignments, or it refuses the first one whose key was assigned
before. -/
theorem assignAll_strict (d : Draft) (made : List Assignment) :
    (((made.map Assignment.key).Nodup ∧ ∀ a ∈ made, a.key ∉ d.assigned) ∧
      d.assignAll true made = d.assignAll false made) ∨
    ∃ before a after, made = before ++ a :: after ∧
      ((before.map Assignment.key).Nodup ∧ ∀ b ∈ before, b.key ∉ d.assigned) ∧
      (a.key ∈ d.assigned ∨ a.key ∈ before.map Assignment.key) ∧
      d.assignAll true made = .error (.duplicate a.start a.key) := by
  induction made generalizing d with
  | nil => exact .inl ⟨⟨List.nodup_nil, fun _ h => absurd h List.not_mem_nil⟩, rfl⟩
  | cons a made ih =>
    by_cases ha : a.key ∈ d.assigned
    · refine .inr ⟨[], a, made, rfl, ⟨List.nodup_nil, fun _ h => absurd h List.not_mem_nil⟩,
        .inl ha, ?_⟩
      rw [assignAll, assign, if_pos (by simp [ha])]
    · let d' : Draft :=
        { settings := d.settings.insert a.key a.value, assigned := a.key :: d.assigned }
      have hassign : ∀ strict, d.assignAll strict (a :: made) = d'.assignAll strict made := by
        intro strict
        rw [assignAll, assign, if_neg (by simp [ha])]
      rw [hassign, hassign]
      -- The keys of the rest are new to `d'`, that is, new to `d` and not the key of `a`.
      have hnew : ∀ bs : List Assignment,
          ((bs.map Assignment.key).Nodup ∧ ∀ b ∈ bs, b.key ∉ d'.assigned) →
          (((a :: bs).map Assignment.key).Nodup ∧ ∀ b ∈ a :: bs, b.key ∉ d.assigned) := by
        rintro bs ⟨hnodup, hbs⟩
        refine ⟨?_, ?_⟩
        · rw [List.map_cons, List.nodup_cons]
          refine ⟨?_, hnodup⟩
          intro hmem
          obtain ⟨b, hb, he⟩ := List.mem_map.1 hmem
          exact hbs b hb (he ▸ List.mem_cons_self)
        · refine List.forall_mem_cons.2 ⟨ha, ?_⟩
          intro b hb hmem
          exact hbs b hb (List.mem_cons_of_mem _ hmem)
      rcases ih d' with ⟨hall, heq⟩ | ⟨before, b, after, rfl, hbefore, hb, heq⟩
      · exact .inl ⟨hnew made hall, heq⟩
      · refine .inr ⟨a :: before, b, after, rfl, hnew before hbefore, ?_, heq⟩
        rcases hb with hb | hb
        · rcases List.mem_cons.1 hb with hb | hb
          · exact .inr (hb ▸ List.mem_cons_self)
          · exact .inl hb
        · exact .inr (List.mem_cons_of_mem _ hb)

end Draft

section Reader

variable {strict : Bool} {ending : Lexeme.Ending} {blocks blocks' : List Text}
  {ls rest : List Lexeme} {made : List Assignment}

/-- A step is taken by the reader, which assigns what the step assigns. -/
theorem read_step (h : Step ending blocks ls made blocks' rest) (d : Draft) :
    read strict ending blocks d ls =
      match d.assignAll strict made with
      | .error e => .error e
      | .ok d' => read strict ending blocks' d' rest := by
  cases h with
  | @assignment _ key value w p xs rest hxs hrest =>
    have hst := statement_of_assignment hxs hrest
    rw [Draft.assignAll]
    cases hd : d.assign strict p (Key.under (blocks.headD []) key.text) value.text with
    | error e =>
      unfold Words.text at hd
      rw [read]
      split <;> simp_all
    | ok d' => exact read_assignment hst hd
  | @opening _ key w p xs rest hxs =>
    exact read_opening (statement_of_opening hxs)
  | closing => exact read_closing

/-- The assignments of a run are made one after another, and the reader goes on where it ends. -/
theorem read_steps (h : Steps ending blocks ls made blocks' rest) (d : Draft) :
    read strict ending blocks d ls =
      match d.assignAll strict made with
      | .error e => .error e
      | .ok d' => read strict ending blocks' d' rest := by
  induction h generalizing d with
  | refl => rfl
  | @head _ _ _ _ _ _ made more hstep _ ih =>
    rw [read_step hstep, Draft.assignAll_append]
    cases d.assignAll strict made with
    | error e => rfl
    | ok d' => exact ih d'

theorem read_other {x : Lexeme} (hword : ∀ w, x.token ≠ .word w) (hclosing : x.token ≠ .closing)
    (d : Draft) :
    read strict ending blocks d (x :: ls) = .error (.grammar x.start (pending blocks)) := by
  rw [read]
  · exact fun w p he => hword w (congrArg Lexeme.token he)
  · exact fun p he => hclosing (congrArg Lexeme.token he)

/-- Where no step is possible the reader ends, at the end of the document or with a fault. -/
theorem read_stuck (h : Stuck ending blocks ls) :
    (blocks = [] ∧ ls = [] ∧ (∃ p, ending = .finish p) ∧
      ∀ strict d, read strict ending blocks d ls = .ok d.settings) ∨
    ∃ f, ∀ strict d, read strict ending blocks d ls = .error f := by
  cases ls with
  | nil =>
    by_cases hend : blocks = [] ∧ ∃ p, ending = .finish p
    · obtain ⟨rfl, p, rfl⟩ := hend
      exact .inl ⟨rfl, rfl, ⟨p, rfl⟩, fun strict d => by rw [read]⟩
    · refine .inr ⟨refuse ending [] (pending blocks), fun strict d => ?_⟩
      rw [read]
      exact fun p he hb => hend ⟨hb, p, he⟩
  | cons x rest =>
    obtain ⟨token, p⟩ := x
    cases token with
    | word w =>
      cases hst : statement ending w rest with
      | error e =>
        refine .inr ⟨e, fun strict d => ?_⟩
        rw [read]
        split <;> simp_all
      | ok r =>
        obtain ⟨made, blocks', hstep⟩ := step_of_statement blocks p hst
        exact absurd hstep (h made blocks' r.2)
    | closing =>
      cases blocks with
      | nil => exact .inr ⟨.grammar p .endExpected, fun strict d => by rw [read]⟩
      | cons key outer => exact absurd .closing (h [] outer rest)
    | dot | opening | equal | finish =>
      exact .inr ⟨_, fun strict d => read_other (by simp) (by simp) d⟩

end Reader

/-! ## Runs and derivations -/

/-- What a step takes stands in front of what the open blocks leave. -/
theorem Step.remainder {ending : Lexeme.Ending} {blocks blocks' : List Text}
    {ls rest : List Lexeme} {made : List Assignment} {es : List Entry}
    (h : Step ending blocks ls made blocks' rest)
    (hrest : Remainder blocks' (rest.map Lexeme.token) es) :
    Remainder blocks (ls.map Lexeme.token) (made.map Assignment.entry ++ es) := by
  cases h with
  | @assignment _ key value w p xs _ hxs _ =>
    have hnode := hrest.node (.assignment key value)
    rw [Node.tokens, ← hxs] at hnode
    rw [List.map_cons, List.map_append]
    exact hnode
  | @opening _ key w p xs _ hxs =>
    have hblock := hrest.enter
    rw [← List.singleton_append, ← List.append_assoc, ← hxs] at hblock
    rw [List.map_cons, List.map_append]
    exact hblock
  | closing => exact hrest.leave

/-- A run to the end of a document makes the entries of a derivation. -/
theorem Steps.remainder {ending : Lexeme.Ending} {blocks blocks' : List Text}
    {ls rest : List Lexeme} {made : List Assignment} {es : List Entry}
    (h : Steps ending blocks ls made blocks' rest)
    (hrest : Remainder blocks' (rest.map Lexeme.token) es) :
    Remainder blocks (ls.map Lexeme.token) (made.map Assignment.entry ++ es) := by
  induction h with
  | refl => exact hrest
  | head hstep _ ih =>
    rw [List.map_append, List.append_assoc]
    exact hstep.remainder (ih hrest)

/-- How a document is read, both ways: up to the place where its run ends the assignments are made,
and a strict reader refuses the first one that repeats a key. -/
theorem ofLexemes_of_assigns {ls : Lexemes} {made : List Assignment} (h : Assigns ls made)
    (defaults : Settings) :
    (((made.map Assignment.key).Nodup ∧ ofLexemes true defaults ls = ofLexemes false defaults ls) ∨
      ∃ a, FirstRepetition made a ∧
        ofLexemes true defaults ls = .error (.duplicate a.start a.key)) ∧
    ∀ settings, ofLexemes false defaults ls = .ok settings →
      settings = defaults.insertAll (made.map Assignment.entry) ∧
      ∃ body : Body, ls.tokens? = some body.tokens ∧
        made.map Assignment.entry = body.entries [] := by
  obtain ⟨blocks, rest, hsteps, hstuck⟩ := h
  have hread : ∀ strict, ofLexemes strict defaults ls =
      match Draft.assignAll strict { settings := defaults } made with
      | .error e => .error e
      | .ok d => read strict ls.ending blocks d rest :=
    fun strict => read_steps hsteps { settings := defaults }
  refine ⟨?modes, ?success⟩
  case modes =>
    rw [hread true, hread false]
    rcases Draft.assignAll_strict { settings := defaults } made with
      ⟨⟨hnodup, -⟩, heq⟩ | ⟨before, a, after, hmade, ⟨hnodup, -⟩, ha, heq⟩
    · refine .inl ⟨hnodup, ?_⟩
      rw [heq, Draft.assignAll_lenient]
      rcases read_stuck hstuck with ⟨-, -, -, hend⟩ | ⟨f, hend⟩
      · exact (hend true _).trans (hend false _).symm
      · exact (hend true _).trans (hend false _).symm
    · refine .inr ⟨a, ⟨before, after, hmade, hnodup, ?_⟩, by rw [heq]⟩
      exact ha.resolve_left List.not_mem_nil
  case success =>
    intro settings hsettings
    rw [hread false, Draft.assignAll_lenient] at hsettings
    rcases read_stuck hstuck with ⟨rfl, rfl, ⟨p, hp⟩, hend⟩ | ⟨f, hend⟩
    · have hok := (hend false _).symm.trans hsettings
      cases hok
      have hrest := hsteps.remainder (.last [])
      refine ⟨rfl, ?_⟩
      unfold Lexemes.tokens?
      rw [hp]
      rw [Body.entries, List.append_nil] at hrest
      generalize ls.run.map Lexeme.token = ts at hrest
      generalize made.map Assignment.entry = es at hrest
      cases hrest with
      | last body => exact ⟨body, rfl, rfl⟩
    · have hok := (hend false _).symm.trans hsettings
      cases hok

end Document

open Document

/-- A strict document is read with the same result as any other, settings or fault, unless it
assigns a key again before it ends or is at fault: then the first assignment that does so is
refused, at the place where its statement starts. What a document assigns does not depend on the
defaults; if the document has no fault, they are the entries of its derivation, in order. -/
theorem parseText_strict (text source : Text) (defaults : Settings) :
    (∃ made, Assigns (Lexemes.ofText text) made) ∧
    ∀ made, Assigns (Lexemes.ofText text) made →
      (((made.map Assignment.key).Nodup ∧
          parseText text source defaults true = parseText text source defaults false) ∨
        ∃ a, FirstRepetition made a ∧
          parseText text source defaults true =
            .error (.config (.duplicate ⟨source, a.start⟩ a.key))) ∧
      ∀ settings, parseText text source defaults false = .ok settings →
        settings = defaults.insertAll (made.map Assignment.entry) ∧
        ∃ body : Body, (Lexemes.ofText text).tokens? = some body.tokens ∧
          made.map Assignment.entry = body.entries [] := by
  refine ⟨exists_assigns (Lexemes.ofText text), ?_⟩
  intro made hmade
  obtain ⟨hmodes, hsuccess⟩ := ofLexemes_of_assigns hmade defaults
  refine ⟨?_, fun settings hsettings => hsuccess settings (parseText_eq_ok.1 hsettings)⟩
  unfold parseText ofText
  rcases hmodes with ⟨hnodup, heq⟩ | ⟨a, ha, heq⟩
  · exact .inl ⟨hnodup, by rw [heq]⟩
  · exact .inr ⟨a, ha, by rw [heq]; rfl⟩

/-- The second `a` is refused although the brace behind it is at fault in both modes. -/
theorem parseText_strict_before_fault :
    Assigns (Lexemes.ofText "a = 1 a = 2 \x7d".toList)
        [⟨⟨0, 1⟩, "a".toList, "1".toList⟩, ⟨⟨6, 1⟩, "a".toList, "2".toList⟩] ∧
      parseText "a = 1 a = 2 \x7d".toList "s".toList .empty false =
        .error (.config (.grammar ⟨"s".toList, ⟨12, 1⟩⟩ .endExpected)) ∧
      parseText "a = 1 a = 2 \x7d".toList "s".toList .empty true =
        .error (.config (.duplicate ⟨"s".toList, ⟨6, 1⟩⟩ "a".toList)) := by
  have hls : Lexemes.ofText "a = 1 a = 2 \x7d".toList =
      ⟨[⟨.word "a".toList, ⟨0, 1⟩⟩, ⟨.equal, ⟨2, 1⟩⟩, ⟨.word "1".toList, ⟨4, 1⟩⟩,
        ⟨.word "a".toList, ⟨6, 1⟩⟩, ⟨.equal, ⟨8, 1⟩⟩, ⟨.word "2".toList, ⟨10, 1⟩⟩,
        ⟨.closing, ⟨12, 1⟩⟩], .finish ⟨13, 1⟩⟩ := by decide +kernel
  have hstep : ∀ p q r v rest, Followed (.finish ⟨13, 1⟩) rest →
      Step (.finish ⟨13, 1⟩) [] (⟨.word "a".toList, p⟩ :: ([⟨.equal, q⟩, ⟨.word v, r⟩] ++ rest))
        [⟨p, "a".toList, v⟩] [] rest :=
    fun p q r v rest h => .assignment ⟨"a".toList, []⟩ ⟨v, []⟩ rfl h
  have hsteps : Steps (.finish ⟨13, 1⟩) [] (Lexemes.ofText "a = 1 a = 2 \x7d".toList).run
      [⟨⟨0, 1⟩, "a".toList, "1".toList⟩, ⟨⟨6, 1⟩, "a".toList, "2".toList⟩] []
      [⟨.closing, ⟨12, 1⟩⟩] := by
    rw [hls]
    exact .head (hstep _ _ _ _ _ (by simp [Followed]))
      (.head (hstep _ _ _ _ _ (by simp [Followed])) .refl)
  have hassigns : Assigns (Lexemes.ofText "a = 1 a = 2 \x7d".toList)
      [⟨⟨0, 1⟩, "a".toList, "1".toList⟩, ⟨⟨6, 1⟩, "a".toList, "2".toList⟩] := by
    refine ⟨[], [⟨.closing, ⟨12, 1⟩⟩], ?_, ?_⟩
    · rw [hls] at hsteps ⊢
      exact hsteps
    · intro made blocks' ls' h
      cases h
  refine ⟨hassigns, ?lenient, ?strict⟩
  case lenient =>
    unfold parseText ofText ofLexemes
    rw [show (Lexemes.ofText _).ending = .finish ⟨13, 1⟩ from congrArg Lexemes.ending hls,
      read_steps hsteps, Draft.assignAll_lenient]
    show Except.mapError _ (Document.read _ _ [] _ [⟨.closing, ⟨12, 1⟩⟩]) = _
    rw [Document.read]
    rfl
  case strict =>
    obtain ⟨⟨hnodup, -⟩ | ⟨a, ⟨before, after, hmade, hnodup, ha⟩, heq⟩, -⟩ :=
      (parseText_strict "a = 1 a = 2 \x7d".toList "s".toList .empty).2 _ hassigns
    · exact absurd hnodup (by decide)
    · rcases before with _ | ⟨first, _ | ⟨second, before⟩⟩
      · cases ha
      · cases hmade
        exact heq
      · have hlen := congrArg List.length hmade
        simp only [List.length_append, List.length_cons, List.length_nil] at hlen
        omega

end LayeredSettings

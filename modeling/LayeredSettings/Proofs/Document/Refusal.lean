import LayeredSettings.Proofs.Document.Beginnings
import LayeredSettings.Proofs.Document.Strictness

/-!
# Where a document is refused

A document is refused at the first token with which no document goes on: what stands before that
token begins a document, and what stands up to it does not (`parseText_refused`).

1. A statement is refused at such a token (`refusal_of_statement`): where a word is required behind
   a dot or an equals sign, and where a key neither goes on nor comes to its end.
2. A step of the document hands a refusal behind it on (`Step.refusal`), and so does a run of them
   (`Steps.refusal`). The run ends where no step is possible; the document ends there or is refused
   there (`refusal_of_stuck`).
-/

namespace LayeredSettings

namespace Document

variable {ending : Lexeme.Ending} {blocks blocks' : List Text} {front : List Token}
  {ls rest : List Lexeme} {e : Fault}

/-- The lexeme that comes next, the end of the text being one. -/
def upcoming (ending : Lexeme.Ending) : List Lexeme → Option Lexeme
  | [] => ending.lexeme?
  | x :: _ => some x

/-- A document is refused where the next lexeme starts, if there is one. -/
theorem refuse_of_upcoming {x : Lexeme} (h : upcoming ending ls = some x) (reason : Reason) :
    refuse ending ls reason = .grammar x.start reason ∧
      ∃ after, ls ++ ending.lexeme?.toList = x :: after := by
  cases ls with
  | nil =>
    cases ending with
    | finish p => cases h; exact ⟨rfl, [], rfl⟩
    | fault f => cases h
    | torn f => cases h
  | cons y ls =>
    cases h
    exact ⟨rfl, _, rfl⟩

theorem ending_of_upcoming (h : upcoming ending ls = none) :
    ls = [] ∧ ((∃ f, ending = .fault f) ∨ ∃ f, ending = .torn f) := by
  cases ls with
  | nil =>
    cases ending with
    | finish p => cases h
    | fault f => exact ⟨rfl, .inl ⟨f, rfl⟩⟩
    | torn f => exact ⟨rfl, .inr ⟨f, rfl⟩⟩
  | cons y ls => cases h

theorem Followed.token_ne_dot (h : Followed ending ls) :
    ∀ x ∈ upcoming ending ls, x.token ≠ .dot := by
  intro x hx
  cases ls with
  | nil =>
    obtain ⟨p, rfl⟩ := h
    cases hx
    simp
  | cons y ls =>
    cases hx
    exact h

theorem Followed.head?_ne_dot {taken : List Lexeme} (h : Followed ending (taken ++ rest)) :
    (taken.map Lexeme.token).head? ≠ some .dot ∧
      ∀ x ∈ upcoming ending rest, (taken.map Lexeme.token ++ [x.token]).head? ≠ some .dot := by
  cases taken with
  | nil => exact ⟨by simp, fun x hx => by simpa using h.token_ne_dot x hx⟩
  | cons y taken =>
    have hy : y.token ≠ .dot := h
    exact ⟨by simpa using hy, fun x _ => by simpa using hy⟩

/-- A token that no lexeme in front has does not come next. -/
theorem token_ne_of_upcoming {token : Token} (htoken : token ≠ .finish)
    (h : ∀ p rest, ls ≠ ⟨token, p⟩ :: rest) : ∀ x ∈ upcoming ending ls, x.token ≠ token := by
  rintro ⟨token', p⟩ hx rfl
  cases ls with
  | nil =>
    cases ending with
    | finish q => cases hx; exact htoken rfl
    | fault f => cases hx
    | torn f => cases hx
  | cons y ls =>
    obtain rfl : y = _ := Option.some.inj hx
    exact h p ls rfl

/-- With `front` and some of the lexemes a document goes on inside the open blocks, but with the
lexeme behind them it does not, and the fault `e` lies there. -/
def Refusal (ending : Lexeme.Ending) (blocks : List Text) (front : List Token) (ls : List Lexeme)
    (e : Fault) : Prop :=
  ∃ taken rest reason, ls = taken ++ rest ∧ e = refuse ending rest reason ∧
    Begins blocks (front ++ taken.map Lexeme.token) ∧
    ∀ x ∈ upcoming ending rest, ¬ Begins blocks (front ++ taken.map Lexeme.token ++ [x.token])

/-- A refusal of what comes first. -/
theorem refusal_of_upcoming {reason : Reason} (hfront : Begins blocks front)
    (h : ∀ x ∈ upcoming ending ls, ¬ Begins blocks (front ++ [x.token])) :
    Refusal ending blocks front ls (refuse ending ls reason) := by
  refine ⟨[], ls, reason, rfl, rfl, ?_, ?_⟩
  · rw [List.map_nil, List.append_nil]
    exact hfront
  · rw [List.map_nil, List.append_nil]
    exact h

/-- Lexemes in front may be counted among those that are read. -/
theorem Refusal.append (xs : List Lexeme)
    (h : Refusal ending blocks (front ++ xs.map Lexeme.token) ls e) :
    Refusal ending blocks front (xs ++ ls) e := by
  obtain ⟨taken, rest, reason, rfl, he, hbegins, hnext⟩ := h
  rw [List.append_assoc, ← List.map_append] at hbegins hnext
  exact ⟨xs ++ taken, rest, reason, (List.append_assoc _ _ _).symm, he, hbegins, hnext⟩

/-! ## Statements -/

/-- A row of words goes wrong behind a dot without a word, or the lexemes end with a fault. -/
theorem moreWords_eq_error (h : moreWords ending ls = .error e) :
    ∃ ws taken rest, ls = taken ++ rest ∧ e = refuse ending rest .wordExpected ∧
      (taken.map Lexeme.token = Words.moreTokens ws ∧ upcoming ending rest = none ∨
        taken.map Lexeme.token = Words.moreTokens ws ++ [.dot] ∧
          ∀ x ∈ upcoming ending rest, ∀ w, x.token ≠ .word w) := by
  fun_induction moreWords ending ls with
  | case1 => cases h
  | case2 hfinish =>
    cases h
    refine ⟨[], [], [], rfl, rfl, .inl ⟨rfl, ?_⟩⟩
    cases ending with
    | finish p => exact absurd rfl (hfinish p)
    | fault f => rfl
    | torn f => rfl
  | case3 => cases h
  | case4 p w q ls e' hr ih =>
    cases h
    obtain ⟨ws, taken, rest, rfl, he, hcases⟩ := ih hr
    refine ⟨w :: ws, ⟨.dot, p⟩ :: ⟨.word w, q⟩ :: taken, rest, rfl, he, ?_⟩
    rcases hcases with ⟨htaken, hnext⟩ | ⟨htaken, hnext⟩
    · refine .inl ⟨?_, hnext⟩
      rw [List.map_cons, List.map_cons, htaken]
      rfl
    · refine .inr ⟨?_, hnext⟩
      rw [List.map_cons, List.map_cons, htaken]
      rfl
  | case5 p ls hword =>
    cases h
    refine ⟨[], [⟨.dot, p⟩], ls, rfl, rfl, .inr ⟨rfl, fun x hx w => ?_⟩⟩
    exact token_ne_of_upcoming (by simp) (hword w) x hx
  | case6 => cases h

/-- A row of words that may go on at will is refused where it goes wrong. -/
theorem refusal_of_moreWords (h : moreWords ending ls = .error e)
    (hfront : ∀ ws, Begins blocks (front ++ Words.moreTokens ws)) :
    Refusal ending blocks front ls e := by
  obtain ⟨ws, taken, rest, rfl, rfl, ⟨htaken, hnext⟩ | ⟨htaken, hnext⟩⟩ := moreWords_eq_error h
  · refine ⟨taken, rest, _, rfl, rfl, ?_, ?_⟩
    · rw [htaken]
      exact hfront ws
    · rw [hnext]
      intro x hx
      cases hx
  · refine ⟨taken, rest, _, rfl, rfl, ?_, ?_⟩
    · -- any word behind the dot will do
      have hmore := hfront (ws ++ [[]])
      rw [Words.moreTokens, List.flatMap_append, ← List.append_assoc] at hmore
      rw [htaken, ← List.append_assoc]
      exact hmore.shorten ((List.prefix_append_right_inj _).2 ⟨[.word []], rfl⟩)
    · intro x hx hbegins
      rw [htaken, ← List.append_assoc, List.append_assoc] at hbegins
      obtain ⟨w, hw⟩ := hbegins.word_behind (.inl rfl)
      exact hnext x hx w hw

/-- Behind a key stands what makes the key a statement, or the statement is refused there. -/
theorem refusal_of_afterKey (key : Words) (hls : Followed ending ls)
    (h : afterKey ending key.toList ls = .error e) : Refusal ending blocks key.tokens ls e := by
  have hkey : Begins blocks key.tokens :=
    begins_of_prefix_node (.assignment key ⟨[], []⟩) (List.prefix_append _ _)
  unfold afterKey at h
  split at h
  · next p v q ls' =>
    split at h
    · cases h
    · next hm =>
      cases h
      refine Refusal.append [⟨.equal, p⟩, ⟨.word v, q⟩] (refusal_of_moreWords hm ?_)
      intro vs
      refine begins_of_prefix_node (.assignment key ⟨v, vs⟩) ⟨[], ?_⟩
      rw [List.append_nil, List.append_assoc]
      rfl
  · next p ls' hword =>
    cases h
    refine Refusal.append [⟨.equal, p⟩] (refusal_of_upcoming ?_ ?_)
    · refine begins_of_prefix_node (.assignment key ⟨[], []⟩) ?_
      exact (List.prefix_append_right_inj _).2 ⟨_, rfl⟩
    · intro x hx hbegins
      rw [List.append_assoc] at hbegins
      obtain ⟨w, hw⟩ := hbegins.word_behind (.inr rfl)
      exact token_ne_of_upcoming (by simp) (hword w) x hx hw
  · cases h
  · next _ hequal hopening =>
    cases h
    refine refusal_of_upcoming hkey ?_
    intro x hx hbegins
    rcases hbegins.behind_key with hx' | hx' | hx'
    · exact hls.token_ne_dot x hx hx'
    · exact token_ne_of_upcoming (by simp) hequal x hx hx'
    · exact token_ne_of_upcoming (by simp) hopening x hx hx'

theorem refusal_of_statement {w : Text} (h : statement ending w ls = .error e) :
    Refusal ending blocks [.word w] ls e := by
  unfold statement at h
  split at h
  · next ws rest hm =>
    obtain ⟨hrest, xs, rfl, hxs⟩ := followed_of_moreWords hm
    refine Refusal.append xs ?_
    rw [hxs]
    exact refusal_of_afterKey ⟨w, ws⟩ hrest h
  · next hm =>
    cases h
    refine refusal_of_moreWords hm fun ws => ?_
    exact begins_of_prefix_node (.assignment ⟨w, ws⟩ ⟨[], []⟩) (List.prefix_append _ _)

/-! ## Steps -/

/-- A step takes tokens away in front of which the rest may go on just as behind them. -/
theorem Step.begins_iff {made : List Assignment} (h : Step ending blocks ls made blocks' rest) :
    ∃ xs, ls = xs ++ rest ∧ ∀ ts : List Token, (Followed ending rest → ts.head? ≠ some .dot) →
      (Begins blocks (xs.map Lexeme.token ++ ts) ↔ Begins blocks' ts) := by
  cases h with
  | @assignment _ key value w p xs _ hxs hrest =>
    refine ⟨⟨.word w, p⟩ :: xs, rfl, fun ts hts => ?_⟩
    rw [List.map_cons, hxs]
    exact begins_node (.assignment key value) (hts hrest)
  | @opening _ key w p xs _ hxs =>
    refine ⟨⟨.word w, p⟩ :: xs, rfl, fun ts _ => ?_⟩
    rw [List.map_cons, hxs, List.append_assoc]
    exact begins_opening
  | @closing key _ p _ =>
    exact ⟨[⟨.closing, p⟩], rfl, fun ts _ => begins_closing⟩

/-- What is refused behind a step is refused. -/
theorem Step.refusal {made : List Assignment} (h : Step ending blocks ls made blocks' rest)
    (hrest : Refusal ending blocks' [] rest e) : Refusal ending blocks [] ls e := by
  obtain ⟨xs, rfl, hiff⟩ := h.begins_iff
  obtain ⟨taken, rest', reason, rfl, he, hbegins, hnext⟩ := hrest
  rw [List.nil_append] at hbegins hnext
  refine Refusal.append xs ⟨taken, rest', reason, rfl, he, ?_, fun x hx => ?_⟩
  · rw [List.nil_append]
    exact (hiff _ fun hfollowed => hfollowed.head?_ne_dot.1).2 hbegins
  · rw [List.nil_append, List.append_assoc]
    exact mt (hiff _ fun hfollowed => hfollowed.head?_ne_dot.2 x hx).1 (hnext x hx)

/-- What is refused behind a run of steps is refused. -/
theorem Steps.refusal {made : List Assignment} (h : Steps ending blocks ls made blocks' rest)
    (hrest : Refusal ending blocks' [] rest e) : Refusal ending blocks [] ls e := by
  induction h with
  | refl => exact hrest
  | head hstep _ ih => exact hstep.refusal (ih hrest)

theorem Steps.mem_of_mem_rest {made : List Assignment}
    (h : Steps ending blocks ls made blocks' rest) : ∀ x ∈ rest, x ∈ ls := by
  induction h with
  | refl => exact fun x hx => hx
  | head hstep _ ih =>
    obtain ⟨xs, rfl, -⟩ := hstep.begins_iff
    exact fun x hx => List.mem_append_right xs (ih x hx)

/-- A refusal of a token with which no statement starts. -/
theorem refusal_of_head {x : Lexeme} {reason : Reason} (h : ¬ Begins blocks [x.token]) :
    Refusal ending blocks [] (x :: rest) (.grammar x.start reason) := by
  refine refusal_of_upcoming (begins_nil blocks) fun y hy => ?_
  cases hy
  exact h

/-- Where no step is possible the document is refused unless it ends there. -/
theorem refusal_of_stuck (h : Stuck ending blocks ls) (hls : ∀ x ∈ ls, x.token ≠ .finish)
    {strict : Bool} {d : Draft} (he : read strict ending blocks d ls = .error e) :
    Refusal ending blocks [] ls e := by
  cases ls with
  | nil =>
    have hopen : ∀ p, ending = .finish p → blocks ≠ [] := by
      rintro p rfl rfl
      rw [read] at he
      cases he
    rw [read] at he
    · cases he
      refine refusal_of_upcoming (begins_nil blocks) fun x hx hbegins => ?_
      cases ending with
      | finish p =>
        cases hx
        simpa [hopen p rfl] using hbegins.head_cases
      | fault f => cases hx
      | torn f => cases hx
    · exact hopen
  | cons x rest =>
    obtain ⟨token, p⟩ := x
    cases token with
    | word w =>
      cases hst : statement ending w rest with
      | error e' =>
        obtain rfl : e' = e := Except.error.inj ((read_of_statement_error hst).symm.trans he)
        exact Refusal.append [⟨.word w, p⟩] (refusal_of_statement hst)
      | ok r =>
        obtain ⟨made, blocks', hstep⟩ := step_of_statement blocks p hst
        exact absurd hstep (h made blocks' r.2)
    | closing =>
      cases blocks with
      | nil =>
        rw [read] at he
        cases he
        exact refusal_of_head fun hbegins => by simpa using hbegins.head_cases
      | cons key outer => exact absurd .closing (h [] outer rest)
    | finish => exact absurd rfl (hls _ List.mem_cons_self)
    | dot | opening | equal =>
      rw [read_other (by simp) (by simp)] at he
      cases he
      exact refusal_of_head fun hbegins => by simpa using hbegins.head_cases

/-- A document that is not strict is refused at the first token with which none goes on. -/
theorem refusal_of_read {d : Draft} (hls : ∀ x ∈ ls, x.token ≠ .finish)
    (h : read false ending blocks d ls = .error e) : Refusal ending blocks [] ls e := by
  obtain ⟨made, blocks', rest, hsteps, hstuck⟩ := exists_steps ending blocks ls
  rw [read_steps hsteps, Draft.assignAll_lenient] at h
  have hrest : ∀ x ∈ rest, x.token ≠ .finish := fun x hx => hls x (hsteps.mem_of_mem_rest x hx)
  exact hsteps.refusal (refusal_of_stuck hstuck hrest h)

theorem refusal_of_ofText {defaults : Settings} {t : Text}
    (h : ofText false defaults t = .error e) :
    Refusal (Lexemes.ofText t).ending [] [] (Lexemes.ofText t).run e :=
  refusal_of_read Lexemes.token_ne_finish_of_mem_run h

end Document

open Document

/-- A text that cannot be parsed is refused at the first token at fault. If that is because no
token can be read there, the tokens before it begin a document. Otherwise the fault is placed where
the token starts, the tokens before it begin a document, and together with it they do not. -/
theorem parseText_refused {text source : Text} {defaults : Settings} {failure : Failure}
    (h : parseText text source defaults false = .error failure) :
    (∃ fault, (Lexemes.ofText text).ending = .fault fault ∧
      failure = .config (.lexical ⟨source, fault.position⟩ fault.reason) ∧
      BeginsDocument ((Lexemes.ofText text).run.map Lexeme.token)) ∨
    ∃ before x after reason, (Lexemes.ofText text).withEnd = before ++ x :: after ∧
      failure = .config (.grammar ⟨source, x.start⟩ reason) ∧
      BeginsDocument (before.map Lexeme.token) ∧
      ¬ BeginsDocument ((before ++ [x]).map Lexeme.token) := by
  unfold parseText at h
  cases hread : Document.ofText false defaults text with
  | ok settings =>
    rw [hread] at h
    cases h
  | error e =>
    rw [hread] at h
    cases h
    obtain ⟨before, rest, reason, hrun, rfl, hbegins, hnext⟩ := refusal_of_ofText hread
    rw [List.nil_append, ← beginsDocument_iff] at hbegins
    cases hx : upcoming (Lexemes.ofText text).ending rest with
    | none =>
      obtain ⟨rfl, ⟨f, hf⟩ | ⟨f, hf⟩⟩ := ending_of_upcoming hx
      · refine .inl ⟨f, hf, by rw [hf]; rfl, ?_⟩
        rw [hrun, List.append_nil]
        exact hbegins
      · cases Lexemes.tear_of_ending hf
    | some x =>
      obtain ⟨hrefuse, after, hafter⟩ := refuse_of_upcoming hx reason
      refine .inr ⟨before, x, after, reason, ?_, by rw [hrefuse]; rfl, hbegins, ?_⟩
      · rw [Lexemes.withEnd, hrun, List.append_assoc, hafter]
      · rw [List.map_append, beginsDocument_iff]
        exact hnext x hx

/-- In a block the word `b` may begin an entry, and with the word `c` behind it nothing does. -/
theorem parseText_refused_in_block :
    parseText "a \x7b b c \x7d".toList "s".toList .empty false =
        .error (.config (.grammar ⟨"s".toList, ⟨6, 1⟩⟩ .assignmentExpected)) ∧
      BeginsDocument [.word "a".toList, .opening, .word "b".toList] ∧
      ¬ BeginsDocument [.word "a".toList, .opening, .word "b".toList, .word "c".toList] := by
  have hls : Lexemes.ofText "a \x7b b c \x7d".toList =
      ⟨[⟨.word "a".toList, ⟨0, 1⟩⟩, ⟨.opening, ⟨2, 1⟩⟩, ⟨.word "b".toList, ⟨4, 1⟩⟩,
        ⟨.word "c".toList, ⟨6, 1⟩⟩, ⟨.closing, ⟨8, 1⟩⟩], .finish ⟨9, 1⟩⟩ := by decide +kernel
  have hparse : parseText "a \x7b b c \x7d".toList "s".toList .empty false =
      .error (.config (.grammar ⟨"s".toList, ⟨6, 1⟩⟩ .assignmentExpected)) := by
    unfold parseText ofText
    rw [hls, ofLexemes, Document.read]
    simp only [statement, moreWords, afterKey]
    rw [Document.read]
    rfl
  have hall : (Lexemes.ofText "a \x7b b c \x7d".toList).withEnd =
      [⟨.word "a".toList, ⟨0, 1⟩⟩, ⟨.opening, ⟨2, 1⟩⟩, ⟨.word "b".toList, ⟨4, 1⟩⟩] ++
        ⟨.word "c".toList, ⟨6, 1⟩⟩ :: [⟨.closing, ⟨8, 1⟩⟩, ⟨.finish, ⟨9, 1⟩⟩] := by
    rw [hls]
    rfl
  refine ⟨hparse, ?_⟩
  rcases parseText_refused hparse with ⟨f, -, hf, -⟩ | ⟨before, x, after, _, hx, hf, hbegins⟩
  · cases hf
  · have hstart : x.start = ⟨6, 1⟩ := by
      simp only [Failure.config.injEq, ConfigError.grammar.injEq, Location.mk.injEq] at hf
      exact hf.1.2.symm
    -- no other lexeme starts there
    have hnotMem : ∀ ys : List Lexeme, ys.all (·.start ≠ ⟨6, 1⟩) = true → x ∉ ys := by
      intro ys hys hmem
      simpa [hstart] using List.all_eq_true.1 hys x hmem
    rw [hall] at hx
    obtain ⟨rfl, rfl, -⟩ := (List.append_cons_inj_of_notMem
      (hnotMem _ (by decide)) (hnotMem _ (by decide))).1 hx
    exact hbegins

end LayeredSettings

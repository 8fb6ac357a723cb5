import LayeredSettings.Proofs.Token.Literal
import LayeredSettings.Proofs.Token.Numeral
import LayeredSettings.Store.Writer
import LayeredSettings.Token.Lexer

/-!
# Gaps and spellings

What the lexer skips and what it reads as a token, said without the lexer's position. A gap is made
of blanks and comments (`read_gap`). A spelling of a token is read as that token wherever it
starts, and also if other text comes behind it: nothing, a blank, a comment, or text that starts
with the same character (`Spells`). A token is the longest mark, name, numeral or literal that
stands where it starts (`Longest`): these are spellings (`Longest.spells`), and the lexer reads
nothing else as a token (`exists_longest`).
-/

namespace LayeredSettings.Lexer

open Token

/-! ## Gaps -/

/-- Blanks and comments, each comment with its line feed. -/
inductive Gap : Text → Prop
  | nil : Gap []
  | blank {c : Char} {g : Text} : isBlank c = true → Gap g → Gap (c :: g)
  | comment {line g : Text} : '\n' ∉ line → Gap g → Gap ('#' :: (line ++ '\n' :: g))

theorem Gap.append {g g' : Text} (h : Gap g) (h' : Gap g') : Gap (g ++ g') := by
  induction h with
  | nil => exact h'
  | blank hc _ ih => exact .blank hc ih
  | comment hl _ ih =>
    rw [List.cons_append, List.append_assoc]
    exact .comment hl ih

theorem gap_comment_append {line : Text} (h : '\n' ∉ line) (t : Text) :
    gap true (line ++ '\n' :: t) =
      (line ++ '\n' :: (gap false t).1, (gap false t).2) := by
  induction line with
  | nil => rfl
  | cons c line ih =>
    rw [List.mem_cons, not_or] at h
    have hc : (c != '\n') = true := bne_iff_ne.2 (Ne.symm h.1)
    rw [List.cons_append, gap, if_pos rfl, hc, ih h.2]
    rfl

/-- A gap is skipped together with the gap that follows it. -/
theorem gap_append {g : Text} (h : Gap g) (t : Text) :
    gap false (g ++ t) = (g ++ (gap false t).1, (gap false t).2) := by
  induction h with
  | nil => rfl
  | @blank c g hc _ ih =>
    have hne : c ≠ '#' := by
      rintro rfl
      exact absurd hc (by decide)
    rw [List.cons_append, gap, if_neg (by decide), if_neg hne, if_pos hc, ih]
    rfl
  | @comment line g hl _ ih =>
    rw [List.cons_append, List.append_assoc, gap, if_neg (by decide), if_pos rfl,
      List.cons_append, gap_comment_append hl, ih]
    simp

theorem read_gap {g : Text} (h : Gap g) (t : Text) (p : Position) (carried : Text) :
    read ⟨g ++ t, p, carried⟩ = read ⟨t, p.after g, carried⟩ := by
  unfold read
  simp only
  rw [gap_append h, Position.after_append]

theorem read_of_start {c : Char} (hb : isBlank c = false) (hc : c ≠ '#') (t : Text)
    (p : Position) (carried : Text) :
    read ⟨c :: t, p, carried⟩ = readToken p carried (c :: t) := by
  unfold read
  simp only
  rw [gap, if_neg (by decide), if_neg hc, if_neg (by simp [hb])]
  rfl

/-! ## What stands behind a token -/

/-- `u` may stand behind a token in place of `s`: it is empty, or it starts with a blank, with a
comment, or as `s` does. -/
def MayReplace (s u : Text) : Prop := ∀ c ∈ u.head?, isBlank c = true ∨ c = '#' ∨ c ∈ s.head?

theorem MayReplace.refl (s : Text) : MayReplace s s := fun _ hc => .inr (.inr hc)

theorem MayReplace.trans {s u v : Text} (hu : MayReplace s u) (hv : MayReplace u v) :
    MayReplace s v := by
  intro c hc
  rcases hv c hc with hb | hc | hc
  · exact .inl hb
  · exact .inr (.inl hc)
  · exact hu c hc

/-- A text may be cut off anywhere. -/
theorem mayReplace_append (u v : Text) : MayReplace (u ++ v) u := by
  intro c hc
  refine .inr (.inr ?_)
  rw [Option.mem_def] at hc ⊢
  rw [List.head?_append, hc, Option.some_or]

/-- A text may go on with anything behind a blank. -/
theorem mayReplace_append_blank {c : Char} (hc : isBlank c = true) (s u : Text) :
    MayReplace s (s ++ c :: u) := by
  intro d hd
  cases s with
  | nil =>
    cases hd
    exact .inl hc
  | cons e s => exact .inr (.inr hd)

/-- A property of the first character behind a token that blanks and the comment sign have too. -/
theorem MayReplace.forall_head? {s u : Text} {P : Char → Prop} [DecidablePred P]
    (h : MayReplace s u) (hs : ∀ c ∈ s.head?, P c)
    (hstop : ([' ', '\t', '\r', '\n', '#'].all fun c => decide (P c)) = true) :
    ∀ c ∈ u.head?, P c := by
  intro c hc
  simp only [List.all_eq_true, decide_eq_true_eq] at hstop
  rcases h c hc with hb | rfl | hc
  · apply hstop
    simp only [isBlank, Bool.or_eq_true, decide_eq_true_eq, or_assoc] at hb
    rcases hb with rfl | rfl | rfl | rfl <;> decide
  · exact hstop '#' (by decide)
  · exact hs c hc

/-! ## Spellings -/

/-- `w` is read as `token` in front of `s` and of all that may replace `s`, wherever it starts. -/
def Spells (w : Text) (token : Token) (s : Text) : Prop :=
  ∀ u, MayReplace s u → ∀ p,
    (read ⟨w ++ u, p, []⟩).outcome = .ok token ∧ (read ⟨w ++ u, p, []⟩).start = p ∧
      (read ⟨w ++ u, p, []⟩).next = ⟨u, p.after w, []⟩

theorem Spells.replace {w s u : Text} {token : Token} (h : Spells w token s)
    (hu : MayReplace s u) : Spells w token u :=
  fun v hv => h v (hu.trans hv)

theorem ofMark?_ne_finish (c : Char) : ofMark? c ≠ some .finish := by
  intro h
  unfold ofMark? at h
  repeat' split at h
  all_goals cases h

theorem spells_mark {c : Char} {m : Token} (hm : ofMark? c = some m) (s : Text) :
    Spells [c] m s := by
  have hc : isBlank c = false ∧ c ≠ '#' := by
    unfold ofMark? at hm
    repeat' split at hm
    all_goals first
      | (subst_vars; decide)
      | cases hm
  intro u _ p
  rw [List.singleton_append, read_of_start hc.1 hc.2, readToken, hm]
  exact ⟨rfl, rfl, rfl⟩

/-- A class of characters that has no blank, comment sign, mark or quote in it. -/
theorem start_spec {P : Char → Bool} {c : Char} (h : P c = true)
    (hP : ([' ', '\t', '\r', '\n', '#', '.', '\x7b', '\x7d', '=', '"'].all fun d => !P d) = true) :
    isBlank c = false ∧ c ≠ '#' ∧ ofMark? c = none ∧ c ≠ '"' := by
  have hne : ∀ d ∈ [' ', '\t', '\r', '\n', '#', '.', '\x7b', '\x7d', '=', '"'], c ≠ d := by
    rintro d hd rfl
    have hc := List.all_eq_true.1 hP c hd
    rw [h] at hc
    cases hc
  refine ⟨?_, hne '#' (by decide), ?_, hne '"' (by decide)⟩
  · unfold isBlank
    simp [hne ' ' (by decide), hne '\t' (by decide), hne '\r' (by decide), hne '\n' (by decide)]
  · unfold ofMark?
    rw [if_neg (hne '.' (by decide)), if_neg (hne '\x7b' (by decide)),
      if_neg (hne '\x7d' (by decide)), if_neg (hne '=' (by decide))]

/-! ### Names -/

theorem notNumber_of_isNameStart {c : Char} (h : isNameStart c = true) :
    (isSign c || Text.isDigit c) = false := by
  have hne : ∀ d, isNameStart d = false → c ≠ d := by
    rintro d hd rfl
    rw [h] at hd
    cases hd
  have hdigit : Text.isDigit c = false := by
    rw [Bool.eq_false_iff]
    intro hd
    simp only [isNameStart, Text.isLetter, Text.isDigit, Bool.or_eq_true, Bool.and_eq_true,
      decide_eq_true_eq, Char.le_def, UInt32.le_iff_toNat_le, Char.reduceVal,
      UInt32.reduceToNat] at h hd
    rcases h with (h | h) | rfl
    · omega
    · omega
    · exact absurd hd (by decide)
  simp [isSign, hne '+' (by decide), hne '-' (by decide), hdigit]

/-- A name is read to its end if the text behind it does not go on with the name. -/
theorem spells_name {w s : Text} (hw : Key.isName w = true)
    (hs : ∀ c ∈ s.head?, isNameChar c = false) : Spells w (.word w) s := by
  intro u hu p
  have hhead : ∀ c ∈ u.head?, isNameChar c = false := hu.forall_head? hs (by decide)
  cases w with
  | nil => cases hw
  | cons c rest =>
    rw [Key.isName, Bool.and_eq_true] at hw
    obtain ⟨hb, hc, hm, hq⟩ := start_spec hw.1 (by decide)
    have hn := notNumber_of_isNameStart hw.1
    have hread : read ⟨c :: rest ++ u, p, []⟩ = readName p [] (c :: rest ++ u) := by
      rw [List.cons_append, read_of_start hb hc, readToken, hm]
      simp only
      rw [if_neg hq, if_neg (by simp [hn]), if_pos hw.1]
    have hall : ∀ d ∈ c :: rest, isNameChar d = true := by
      refine List.forall_mem_cons.2 ⟨?_, List.all_eq_true.1 hw.2⟩
      rw [isNameChar, hw.1, Bool.true_or]
    have htake : (c :: rest ++ u).takeWhile isNameChar = c :: rest := by
      rw [List.takeWhile_append_of_pos hall]
      cases u with
      | nil => rw [List.takeWhile_nil, List.append_nil]
      | cons d u => rw [List.takeWhile_cons, if_neg (by simp [hhead d rfl]), List.append_nil]
    have hdrop : (c :: rest ++ u).dropWhile isNameChar = u := by
      rw [List.dropWhile_append_of_pos hall]
      cases u with
      | nil => rfl
      | cons d u => rw [List.dropWhile_cons, if_neg (by simp [hhead d rfl])]
    rw [hread, readName, htake, hdrop]
    exact ⟨rfl, rfl, rfl⟩

/-! ### Numbers -/

theorem read_number {c : Char} (hc : (isSign c || Text.isDigit c) = true) (t : Text)
    (p : Position) : read ⟨c :: t, p, []⟩ = readNumber p [] (c :: t) := by
  obtain ⟨hb, hcomment, hm, hq⟩ :=
    start_spec (P := fun c => isSign c || Text.isDigit c) hc (by decide)
  rw [read_of_start hb hcomment, readToken, hm]
  simp only
  rw [if_neg hq, if_pos hc]

/-- A numeral starts with a sign or a digit. -/
theorem exists_cons_of_numeral {w : Text} (h : Number.Numeral w) :
    ∃ c rest, w = c :: rest ∧ (isSign c || Text.isDigit c) = true := by
  obtain ⟨st, hrun, haccepts⟩ := Number.numeral_iff.1 h
  cases w with
  | nil => cases hrun; cases haccepts
  | cons c rest =>
    obtain ⟨s, hs, -⟩ := Option.bind_eq_some_iff.1 hrun
    refine ⟨c, rest, rfl, ?_⟩
    cases hc : isSign c || Text.isDigit c with
    | true => rfl
    | false =>
      rw [Bool.or_eq_false_iff] at hc
      unfold Number.State.next at hs
      simp only [hc, Bool.false_eq_true, if_false] at hs
      repeat' split at hs
      all_goals cases hs

/-- A numeral is read to its end if the automaton does not go on with what stands behind it. -/
theorem spells_numeral {w s : Text} {st : Number.State} (hrun : Number.State.start.run w = some st)
    (haccepts : st.accepts = true) (hs : ∀ c ∈ s.head?, st.next c = none) :
    Spells w (.word w) s := by
  intro u hu p
  have hstop : ([' ', '\t', '\r', '\n', '#'].all fun d => decide (st.next d = none)) = true := by
    cases st <;> decide
  have hscan : Number.scan .start (w ++ u) = (w, u, st) :=
    Number.scan_append_of_run hrun (hu.forall_head? hs hstop)
  obtain ⟨c, rest, rfl, hc⟩ := exists_cons_of_numeral (Number.numeral_iff.2 ⟨st, hrun, haccepts⟩)
  rw [List.cons_append, read_number hc, ← List.cons_append, readNumber, hscan]
  simp only [haccepts, if_true, List.nil_append, and_self]

/-! ### Literals -/

theorem read_literal (t : Text) (p : Position) : read ⟨'"' :: t, p, []⟩ = readLiteral p [] t := by
  rw [read_of_start (by decide) (by decide), readToken]
  rfl

/-- A literal is read to its closing quote, whatever stands behind it. -/
theorem spells_literal {t decoded taken s : Text}
    (hscan : Quoted.scan t = ⟨decoded, taken, s, .closed⟩) :
    Spells ('"' :: taken) (.word decoded) s := by
  intro u _ p
  obtain ⟨b, hb, htaken⟩ := Quoted.exists_body_of_scan (t := t) (by rw [hscan])
  rw [hscan] at hb htaken
  have hu : Quoted.scan (taken ++ u) = ⟨decoded, taken, u, .closed⟩ := by
    simp only at htaken
    rw [htaken, List.append_assoc]
    exact hb.scan_append u
  rw [List.cons_append, read_literal, readLiteral, hu]
  exact ⟨rfl, rfl, rfl⟩

/-- A quoted text is read back, whatever stands behind it. -/
theorem spells_quoted (t s : Text) : Spells (Quoted.literal t) (.word t) s :=
  spells_literal (Quoted.scan_encode t s)

/-- A written segment of a key is read back if the text behind it does not go on with a name. -/
theorem spells_segment (w : Text) {s : Text} (hs : ∀ c ∈ s.head?, isNameChar c = false) :
    Spells (Key.renderSegment w) (.word w) s := by
  unfold Key.renderSegment
  split
  · next hw => exact spells_name hw hs
  · exact spells_quoted w s

/-! ## Longest tokens -/

/-- `w` is a mark, a name, a numeral or a literal in front of `s`, and it is as long as a name or a
numeral can be there: the token it is read as. -/
inductive Longest : Text → Token → Text → Prop
  | mark {c : Char} {m : Token} {s : Text} : ofMark? c = some m → Longest [c] m s
  | name {w s : Text} : Key.isName w = true → (∀ c ∈ s.head?, isNameChar c = false) →
      Longest w (.word w) s
  | numeral {w s : Text} : Number.Numeral w →
      (∀ c ∈ s.head?, ¬ Number.Viable (w ++ [c])) → Longest w (.word w) s
  | literal {b t s : Text} : Quoted.Body b t → Longest ('"' :: (b ++ ['"'])) (.word t) s

theorem Longest.spells {w s : Text} {token : Token} (h : Longest w token s) :
    Spells w token s := by
  cases h with
  | mark hm => exact spells_mark hm s
  | name hw hs => exact spells_name hw hs
  | numeral hw hs =>
    obtain ⟨st, hrun, haccepts⟩ := Number.numeral_iff.1 hw
    exact spells_numeral hrun haccepts fun d hd => (Number.next_eq_none_iff hrun d).2 (hs d hd)
  | literal hb => exact spells_literal (hb.scan_append s)

section Read

variable {p : Position} {c : Char} {rest t : Text} {token : Token}

theorem exists_longest_of_readName (hc : isNameStart c = true)
    (h : (readName p [] (c :: rest)).outcome = .ok token) :
    ∃ w s, c :: rest = w ++ s ∧ Longest w token s := by
  have hchar : isNameChar c = true := by simp [isNameChar, hc]
  cases h
  refine ⟨(c :: rest).takeWhile isNameChar, (c :: rest).dropWhile isNameChar,
    List.takeWhile_append_dropWhile.symm, .name ?_ ?_⟩
  · rw [List.takeWhile_cons, if_pos hchar, Key.isName, hc, Bool.true_and]
    exact List.all_takeWhile
  · intro d hd
    have hstop := List.head?_dropWhile_not isNameChar (c :: rest)
    rw [hd] at hstop
    exact hstop

theorem exists_longest_of_readNumber (h : (readNumber p [] t).outcome = .ok token) :
    ∃ w s, t = w ++ s ∧ Longest w token s := by
  have hparts := Number.scan_append .start t
  have hrun := Number.run_scan .start t
  have hstop := Number.next_head?_scan .start t
  cases hscan : Number.scan .start t with
  | mk w r =>
    obtain ⟨s, st⟩ := r
    rw [hscan] at hparts hrun hstop
    rw [readNumber, hscan] at h
    simp only at h
    split at h
    · next haccepts =>
      cases h
      refine ⟨w, s, hparts.symm, .numeral (Number.numeral_iff.2 ⟨st, hrun, haccepts⟩) ?_⟩
      exact fun d hd => (Number.next_eq_none_iff hrun d).1 (hstop d hd)
    · cases h

theorem exists_longest_of_readLiteral (h : (readLiteral p [] t).outcome = .ok token) :
    ∃ w s, t = w ++ s ∧ Longest ('"' :: w) token s := by
  have hparts := Quoted.taken_append_left t
  have hbody := Quoted.exists_body_of_scan (t := t)
  cases hscan : Quoted.scan t with
  | mk decoded taken left close =>
    rw [hscan] at hparts hbody
    rw [readLiteral, hscan] at h
    cases close with
    | closed =>
      cases h
      obtain ⟨b, hb, rfl⟩ := hbody rfl
      exact ⟨b ++ ['"'], left, hparts.symm, .literal hb⟩
    | unterminated => cases h
    | escape sign => cases h

/-- What the lexer reads as a token, the end apart, is the longest token that stands there. -/
theorem exists_longest (h : (readToken p [] t).outcome = .ok token) (ht : token ≠ .finish) :
    ∃ w s, t = w ++ s ∧ Longest w token s := by
  cases t with
  | nil =>
    cases h
    exact absurd rfl ht
  | cons c rest =>
    rcases readToken_cases c rest with ⟨m, hm, hr⟩ | ⟨hq, hr⟩ | ⟨-, hr⟩ | ⟨hn, hr⟩ | hr
    · rw [hr] at h
      cases h
      exact ⟨[c], rest, rfl, .mark hm⟩
    · rw [hr] at h
      obtain ⟨w, s, rfl, hw⟩ := exists_longest_of_readLiteral h
      exact ⟨'"' :: w, s, by rw [hq]; rfl, hw⟩
    · rw [hr] at h
      exact exists_longest_of_readNumber h
    · rw [hr] at h
      exact exists_longest_of_readName hn h
    · rw [hr] at h
      cases h

end Read

end LayeredSettings.Lexer

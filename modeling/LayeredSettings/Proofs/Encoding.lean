import LayeredSettings.Encoding.Decoding

/-!
# Texts that arrive in portions

A text in UTF-8 is decoded portion by portion, wherever the portions part its bytes. What the
decoder holds back after a portion is the beginning of the next character (`decode_of_append`), so
that in the end nothing is missing and nothing is left (`Decoder.read_encode`).
-/

namespace LayeredSettings

namespace Encoding.Utf8

variable {bytes extra : List UInt8}

/-! ## More bytes -/

/-- A step with more bytes behind those that it leaves. -/
def Step.append (extra : List UInt8) : Step → Step
  | .char c length rest => .char c length (rest ++ extra)
  | s => s

theorem more_append {bits length k : Nat} (h : more bits length k bytes ≠ .short) :
    more bits length k (bytes ++ extra) = (more bits length k bytes).append extra := by
  induction k generalizing bits length bytes with
  | zero => rfl
  | succ k ih =>
    cases bytes with
    | nil => exact absurd rfl h
    | cons b bytes =>
      rw [more] at h ⊢
      rw [List.cons_append, more]
      split
      · next hb =>
        rw [if_pos hb] at h
        exact ih h
      · rfl

/-- What bytes start with stays the same when more bytes follow, unless they end too early. -/
theorem step_append (hdone : step bytes ≠ .done) (hshort : step bytes ≠ .short) :
    step (bytes ++ extra) = (step bytes).append extra := by
  cases bytes with
  | nil => exact absurd rfl hdone
  | cons lead bytes =>
    rw [List.cons_append]
    unfold step at hshort ⊢
    cases hf : following? lead.toNat with
    | none =>
      simp only [hf]
      rfl
    | some k =>
      cases k with
      | zero =>
        simp only [hf]
        rfl
      | succ k =>
        cases bytes with
        | nil =>
          simp only [hf] at hshort
          exact absurd rfl hshort
        | cons b bytes =>
          simp only [hf, List.cons_append] at hshort ⊢
          split
          · next hb =>
            rw [if_pos hb] at hshort
            exact more_append hshort
          · rfl

/-! ## Parted texts -/

theorem more_ne_done (bits length k : Nat) (bytes : List UInt8) :
    more bits length k bytes ≠ .done := by
  induction k generalizing bits length bytes with
  | zero => exact Step.noConfusion
  | succ k ih =>
    cases bytes with
    | nil => exact Step.noConfusion
    | cons b bytes =>
      rw [more]
      split
      · exact ih _ _ _
      · exact Step.noConfusion

theorem eq_nil_of_step (h : step bytes = .done) : bytes = [] := by
  cases bytes with
  | nil => rfl
  | cons lead bytes =>
    unfold step at h
    simp only at h
    split at h
    · cases h
    · cases h
    · cases h
    · split at h
      · exact absurd h (more_ne_done _ _ _ _)
      · cases h

/-- The first bytes of a text are decoded to the characters that they complete. What is held back is
the beginning of the next one. -/
theorem decode_of_append {t : Text} (h : bytes ++ extra = encode t) :
    ∃ chars held left, t = chars ++ left ∧ decode bytes = .ok ⟨chars, held⟩ ∧
      held ++ extra = encode left ∧ decode held = .ok ⟨[], held⟩ := by
  suffices hfrom : ∀ offset, ∃ chars held left, t = chars ++ left ∧
      decodeFrom offset bytes = .ok ⟨chars, held⟩ ∧ held ++ extra = encode left ∧
      decode held = .ok ⟨[], held⟩ from hfrom 0
  induction t generalizing bytes with
  | nil =>
    obtain ⟨rfl, rfl⟩ := List.append_eq_nil_iff.1 h
    exact fun offset => ⟨[], [], [], rfl, decodeFrom_nil offset, rfl, decodeFrom_nil 0⟩
  | cons c t ih =>
    intro offset
    have hstep : step (bytes ++ extra) = .char c (encodeChar c).length (encode t) := by
      rw [h]
      exact step_encodeChar c (encode t)
    cases hbytes : step bytes with
    | done =>
      rw [eq_nil_of_step hbytes] at h ⊢
      exact ⟨[], [], c :: t, rfl, decodeFrom_nil offset, h, decodeFrom_nil 0⟩
    | char d n rest =>
      rw [step_append (by simp [hbytes]) (by simp [hbytes]), hbytes] at hstep
      obtain ⟨rfl, -, hrest⟩ := Step.char.inj hstep
      obtain ⟨chars, held, left, rfl, hdecode, hheld, hshort⟩ := ih hrest (offset + n)
      refine ⟨d :: chars, held, left, rfl, ?_, hheld, hshort⟩
      rw [decodeFrom_of_char hbytes, hdecode]
      rfl
    | short =>
      have hshort : ∀ offset, decodeFrom offset bytes = .ok ⟨[], bytes⟩ :=
        fun _ => decodeFrom_of_short hbytes
      exact ⟨[], bytes, c :: t, rfl, hshort offset, h, hshort 0⟩
    | refused cause n =>
      rw [step_append (by simp [hbytes]) (by simp [hbytes]), hbytes] at hstep
      cases hstep

end Encoding.Utf8

/-! ## Reading -/

/-- Reading goes on with what is held back, and ends with nothing left. -/
theorem Decoder.read_of_append {held : List UInt8} {portions : List (List UInt8)} {t : Text}
    (hheld : Encoding.Utf8.decode held = .ok ⟨[], held⟩)
    (h : held ++ portions.flatten = Encoding.Utf8.encode t) :
    Decoder.read none ⟨.utf8, held⟩ portions = ⟨t, none⟩ := by
  induction portions generalizing held t with
  | nil =>
    -- What is held back at the end is a whole text, and no character of it was complete.
    rw [List.flatten_nil, List.append_nil] at h
    rw [h, Encoding.Utf8.decode_encode] at hheld
    obtain ⟨rfl, -⟩ := Decoded.mk.inj (Except.ok.inj hheld)
    rw [h]
    rfl
  | cons portion rest ih =>
    rw [List.flatten_cons, ← List.append_assoc] at h
    obtain ⟨chars, held', left, rfl, hdecode, hleft, hheld'⟩ := Encoding.Utf8.decode_of_append h
    have hfeed : feed ⟨.utf8, held⟩ portion = .ok (chars, ⟨.utf8, held'⟩) := by
      show (Encoding.Utf8.decode (held ++ portion)).map _ = _
      rw [hdecode]
      rfl
    simp only [read, hfeed, ih hheld' hleft]
    rfl

/-- A text in UTF-8 that arrives in whole is read as it is, but for its line ends. -/
theorem Encoding.read_encode {tr : Transfer} {t : Text}
    (h : tr.whole = .ok (Utf8.encode t)) : utf8.read tr = ⟨unifyLines false t, none⟩ := by
  unfold Transfer.whole at h
  cases hfailure : tr.failure with
  | some f =>
    rw [hfailure] at h
    cases h
  | none =>
    rw [hfailure] at h
    have hcontent : Decoder.read none ⟨utf8, []⟩ tr.portions = ⟨t, none⟩ :=
      Decoder.read_of_append (Utf8.decodeFrom_nil 0) (Except.ok.inj h)
    rw [Encoding.read, hfailure, hcontent]
    rfl

end LayeredSettings

import LayeredSettings.Encoding.Basic

/-!
# UTF-8

A character is one to four bytes: a lead byte that tells their number, and bytes from 80 to BF.
Overlong forms, surrogates and values above 10FFFF are refused at the second byte. `decode_encode`
says that a text is read back from its bytes.
-/

namespace LayeredSettings.Encoding.Utf8

/-! ## Writing -/

def encodeChar (c : Char) : List UInt8 :=
  let n := c.toNat
  if n < 0x80 then [n.toUInt8]
  else if n < 0x800 then [(0xc0 + n / 0x40).toUInt8, (0x80 + n % 0x40).toUInt8]
  else if n < 0x10000 then
    [(0xe0 + n / 0x1000).toUInt8, (0x80 + n / 0x40 % 0x40).toUInt8, (0x80 + n % 0x40).toUInt8]
  else
    [(0xf0 + n / 0x40000).toUInt8, (0x80 + n / 0x1000 % 0x40).toUInt8,
      (0x80 + n / 0x40 % 0x40).toUInt8, (0x80 + n % 0x40).toUInt8]

def encode (t : Text) : List UInt8 := t.flatMap encodeChar

/-! ## Reading -/

/-- The number of bytes behind a lead byte, or none if the byte leads no character. -/
def following? (lead : Nat) : Option Nat :=
  if lead < 0x80 then some 0
  else if lead < 0xc2 then none
  else if lead < 0xe0 then some 1
  else if lead < 0xf0 then some 2
  else if lead < 0xf5 then some 3
  else none

/-- Whether a byte may stand behind another that is not the lead. -/
def continues (b : Nat) : Bool := 0x80 ≤ b && b ≤ 0xbf

/-- Whether a byte may stand behind a lead byte. -/
def follows (lead b : Nat) : Bool :=
  (if lead = 0xe0 then 0xa0 else if lead = 0xf0 then 0x90 else 0x80) ≤ b
    && b ≤ (if lead = 0xed then 0x9f else if lead = 0xf4 then 0x8f else 0xbf)

/-- What bytes start with: nothing, a character with the bytes behind it, a character cut short,
or `length` bytes that start no character. -/
inductive Step where
  | done
  | char (c : Char) (length : Nat) (rest : List UInt8)
  | short
  | refused (cause : Fault.Cause) (length : Nat)

/-- Reads the last `n` bytes of a character; those before them are `length` bytes with the bits
`bits`. -/
def more (bits length : Nat) : Nat → List UInt8 → Step
  | 0, rest => .char (Char.ofNat bits) length rest
  | _ + 1, [] => .short
  | n + 1, b :: rest =>
    if continues b.toNat then more (bits * 0x40 + b.toNat % 0x40) (length + 1) n rest
    else .refused .invalidContinuation length

def step : List UInt8 → Step
  | [] => .done
  | lead :: rest =>
    match following? lead.toNat, rest with
    | none, _ => .refused .invalidStart 1
    | some 0, _ => .char (Char.ofNat lead.toNat) 1 rest
    | some (_ + 1), [] => .short
    | some (n + 1), b :: rest =>
      if follows lead.toNat b.toNat then
        more (lead.toNat % (0x20 >>> n) * 0x40 + b.toNat % 0x40) 2 n rest
      else .refused .invalidContinuation 1

theorem length_more_le {bits length n k : Nat} {bytes rest : List UInt8} {c : Char}
    (h : more bits length n bytes = .char c k rest) : rest.length ≤ bytes.length := by
  induction n generalizing bits length bytes with
  | zero => cases h; exact Nat.le_refl _
  | succ n ih =>
    cases bytes with
    | nil => cases h
    | cons b bytes =>
      rw [more] at h
      split at h
      · exact Nat.le_succ_of_le (ih h)
      · cases h

theorem length_step_lt {bytes rest : List UInt8} {c : Char} {k : Nat}
    (h : step bytes = .char c k rest) : rest.length < bytes.length := by
  cases bytes with
  | nil => cases h
  | cons lead bytes =>
    unfold step at h
    simp only at h
    split at h
    · cases h
    · cases h
      exact Nat.lt_succ_self _
    · cases h
    · split at h
      · exact Nat.lt_succ_of_le (Nat.le_succ_of_le (length_more_le h))
      · cases h

/-- Whether bytes are the first two of a surrogate, which may yet turn out to be cut short. -/
def isSurrogateStart : List UInt8 → Bool
  | [0xed, b] => 0xa0 ≤ b && b ≤ 0xbf
  | _ => false

/-- The fault of `length` bytes, `offset` bytes from the start. -/
def fault (bytes : List UInt8) (offset length : Nat) (cause : Fault.Cause) : Fault :=
  .undecodable .utf8 (bytes.headD 0) offset length cause

/-- The text of bytes that stand `offset` bytes from the start. A character that is cut short at
the end is held back. -/
def decodeFrom (offset : Nat) (bytes : List UInt8) : Except Fault Decoded :=
  match _h : step bytes with
  | .done => .ok ⟨[], []⟩
  | .char c n rest => (decodeFrom (offset + n) rest).map (Decoded.cons c)
  | .short => .ok ⟨[], bytes⟩
  | .refused cause n =>
    if isSurrogateStart bytes then .ok ⟨[], bytes⟩ else .error (fault bytes offset n cause)
termination_by bytes.length
decreasing_by exact length_step_lt _h

def decode (bytes : List UInt8) : Except Fault Decoded := decodeFrom 0 bytes

/-- The fault of bytes that were held back and to which nothing is added, counted from the first of
them. -/
def cutShort? (held : List UInt8) : Option Fault :=
  match step held with
  | .short => some (fault held 0 held.length .unexpectedEnd)
  | .refused cause n => some (fault held 0 n cause)
  | .done | .char _ _ _ => none

/-- The text of bytes to which nothing will be added: a character that is cut short is a fault, in
its place. -/
def decodeWhole (bytes : List UInt8) : Except Fault Text := do
  let d ← decode bytes
  match cutShort? d.held with
  | none => return d.chars
  | some f => throw (f.shift (encode d.chars).length)

def mark : List UInt8 := [0xef, 0xbb, 0xbf]

/-- Whether bytes are too few to tell if they start with a byte-order mark. -/
def isMarkStart (bytes : List UInt8) : Bool := bytes.length < 3 && bytes.isPrefixOf mark

/-- The text of bytes that may start with a byte-order mark, but not with the beginning of one. -/
def decodeMarked (bytes : List UInt8) : Except Fault Decoded :=
  if mark.isPrefixOf bytes then decode (bytes.drop 3) else decode bytes

/-! ## Reading back -/

private theorem toNat_toUInt8 {n : Nat} (h : n < 0x100) : n.toUInt8.toNat = n := by
  simp only [Nat.toUInt8, UInt8.toNat_ofNat']
  omega

private theorem following?_eq {n : Nat} (h : 0xc2 ≤ n) (h' : n < 0xf5) :
    following? n = some (if n < 0xe0 then 1 else if n < 0xf0 then 2 else 3) := by
  unfold following?
  repeat' split
  all_goals first | rfl | omega

private theorem step_cons {n m k : Nat} (hn : n < 0x100) (hm : m < 0x100)
    (hk : following? n = some (k + 1)) (hf : follows n m = true) (rest : List UInt8) :
    step (n.toUInt8 :: m.toUInt8 :: rest) =
      more (n % (0x20 >>> k) * 0x40 + m % 0x40) 2 k rest := by
  unfold step
  simp only [toNat_toUInt8 hn, toNat_toUInt8 hm, hk, hf, if_true]

private theorem more_cons {bits length k m : Nat} (hm : 0x80 ≤ m) (hm' : m ≤ 0xbf)
    (rest : List UInt8) :
    more bits length (k + 1) (m.toUInt8 :: rest) =
      more (bits * 0x40 + m % 0x40) (length + 1) k rest := by
  rw [more, toNat_toUInt8 (by omega), if_pos (by simp [continues, hm, hm'])]

/-- A character is read back from its bytes, whatever follows them. -/
theorem step_encodeChar (c : Char) (rest : List UInt8) :
    step (encodeChar c ++ rest) = .char c (encodeChar c).length rest := by
  have hv : c.toNat < 0xd800 ∨ 0xdfff < c.toNat ∧ c.toNat < 0x110000 := c.valid
  have hc : Char.ofNat c.toNat = c := Char.ofNat_toNat c
  unfold encodeChar
  generalize c.toNat = n at hv hc ⊢
  simp only
  split
  · next h₁ =>
    have hf : following? n = some 0 := by simp [following?, h₁]
    simp [step, toNat_toUInt8 (show n < 0x100 by omega), hf, hc]
  split
  · next h₁ h₂ =>
    have hf : following? (0xc0 + n / 0x40) = some 1 := by
      rw [following?_eq (by omega) (by omega), if_pos (by omega)]
    have hb : follows (0xc0 + n / 0x40) (0x80 + n % 0x40) = true := by
      simp only [follows, Bool.and_eq_true, decide_eq_true_eq]
      repeat' split
      all_goals omega
    simp only [List.cons_append, List.nil_append]
    rw [step_cons (by omega) (by omega) hf hb, more, show 0x20 >>> 0 = 0x20 from rfl,
      show (0xc0 + n / 0x40) % 0x20 * 0x40 + (0x80 + n % 0x40) % 0x40 = n by omega, hc]
    rfl
  split
  · next h₁ h₂ h₃ =>
    have hf : following? (0xe0 + n / 0x1000) = some 2 := by
      rw [following?_eq (by omega) (by omega), if_neg (by omega), if_pos (by omega)]
    have hb : follows (0xe0 + n / 0x1000) (0x80 + n / 0x40 % 0x40) = true := by
      simp only [follows, Bool.and_eq_true, decide_eq_true_eq]
      repeat' split
      all_goals omega
    simp only [List.cons_append, List.nil_append]
    rw [step_cons (by omega) (by omega) hf hb, more_cons (by omega) (by omega), more,
      show 0x20 >>> 1 = 0x10 from rfl,
      show ((0xe0 + n / 0x1000) % 0x10 * 0x40 + (0x80 + n / 0x40 % 0x40) % 0x40) * 0x40
          + (0x80 + n % 0x40) % 0x40 = n by omega, hc]
    rfl
  · next h₁ h₂ h₃ =>
    have hf : following? (0xf0 + n / 0x40000) = some 3 := by
      rw [following?_eq (by omega) (by omega), if_neg (by omega), if_neg (by omega)]
    have hb : follows (0xf0 + n / 0x40000) (0x80 + n / 0x1000 % 0x40) = true := by
      simp only [follows, Bool.and_eq_true, decide_eq_true_eq]
      repeat' split
      all_goals omega
    simp only [List.cons_append, List.nil_append]
    rw [step_cons (by omega) (by omega) hf hb, more_cons (by omega) (by omega),
      more_cons (by omega) (by omega), more, show 0x20 >>> 2 = 0x8 from rfl,
      show (((0xf0 + n / 0x40000) % 0x8 * 0x40 + (0x80 + n / 0x1000 % 0x40) % 0x40) * 0x40
          + (0x80 + n / 0x40 % 0x40) % 0x40) * 0x40 + (0x80 + n % 0x40) % 0x40 = n by omega, hc]
    rfl

theorem decodeFrom_nil (offset : Nat) : decodeFrom offset [] = .ok ⟨[], []⟩ := by
  rw [decodeFrom.eq_def]
  rfl

theorem decodeFrom_of_char {offset n : Nat} {bytes rest : List UInt8} {c : Char}
    (h : step bytes = .char c n rest) :
    decodeFrom offset bytes = (decodeFrom (offset + n) rest).map (Decoded.cons c) := by
  rw [decodeFrom.eq_def]
  split
  · next h' => cases h.symm.trans h'
  · next h' =>
    cases h.symm.trans h'
    rfl
  · next h' => cases h.symm.trans h'
  · next h' => cases h.symm.trans h'

theorem decodeFrom_of_short {offset : Nat} {bytes : List UInt8} (h : step bytes = .short) :
    decodeFrom offset bytes = .ok ⟨[], bytes⟩ := by
  rw [decodeFrom.eq_def]
  split
  · next h' => cases h.symm.trans h'
  · next h' => cases h.symm.trans h'
  · rfl
  · next h' => cases h.symm.trans h'

/-- A text is read back from its bytes. -/
theorem decode_encode (t : Text) : decode (encode t) = .ok ⟨t, []⟩ := by
  suffices h : ∀ offset, decodeFrom offset (encode t) = .ok ⟨t, []⟩ from h 0
  induction t with
  | nil => exact decodeFrom_nil
  | cons c t ih =>
    intro offset
    have hstep : step (encode (c :: t)) = .char c _ (encode t) := step_encodeChar c (encode t)
    rw [decodeFrom_of_char hstep, ih]
    rfl

end LayeredSettings.Encoding.Utf8

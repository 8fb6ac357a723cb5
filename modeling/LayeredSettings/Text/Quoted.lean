import LayeredSettings.Text.Basic

/-!
# Quoted literals

A quoted literal stands between double quotes. Six characters are written as a backslash and a
letter or sign; every other character, line breaks included, stands for itself. `scan_encode`
says that what `encode` writes is read back, whatever follows it.
-/

namespace LayeredSettings.Quoted

/-! ## Writing -/

/-- The sign behind the backslash for a character that has an escape. -/
def escape? (c : Char) : Option Char :=
  if c = '\\' then some '\\'
  else if c = '"' then some '"'
  else if c = '\x08' then some 'b'
  else if c = '\t' then some 't'
  else if c = '\n' then some 'n'
  else if c = '\r' then some 'r'
  else none

/-- The literal's body for `t`. -/
def encode : Text → Text
  | [] => []
  | c :: rest =>
    match escape? c with
    | some e => '\\' :: e :: encode rest
    | none => c :: encode rest

def literal (t : Text) : Text := '"' :: (encode t ++ ['"'])

/-! ## Reading -/

/-- The character that a sign behind a backslash stands for. -/
def unescape? (e : Char) : Option Char :=
  if e = 'b' then some '\x08'
  else if e = 't' then some '\t'
  else if e = 'n' then some '\n'
  else if e = 'r' then some '\r'
  else if e = '"' then some '"'
  else if e = '\\' then some '\\'
  else none

/-- How the reading of a literal's body ended. -/
inductive Close where
  | closed
  | unterminated
  /-- Before a sign that is no escape. -/
  | escape (sign : Char)
  deriving DecidableEq, Repr

/-- A literal's body as far as it was read: the characters it stands for, the characters taken,
those left, and how the reading ended. -/
structure Scan where
  decoded : Text
  taken : Text
  left : Text
  close : Close
  deriving DecidableEq, Repr

/-- A scan with one more character in front, written as `taken`. -/
def Scan.cons (c : Char) (taken : Text) (s : Scan) : Scan :=
  { s with decoded := c :: s.decoded, taken := taken ++ s.taken }

/-- Reads a literal's body, the opening quote being taken already. A refused escape leaves its
sign unread. -/
def scan : Text → Scan
  | [] => ⟨[], [], [], .unterminated⟩
  | '"' :: rest => ⟨[], ['"'], rest, .closed⟩
  | ['\\'] => ⟨[], ['\\'], [], .unterminated⟩
  | '\\' :: e :: rest =>
    match unescape? e with
    | some c => (scan rest).cons c ['\\', e]
    | none => ⟨[], ['\\'], e :: rest, .escape e⟩
  | c :: rest => (scan rest).cons c [c]

theorem unescape?_of_escape? {c e : Char} (h : escape? c = some e) : unescape? e = some c := by
  unfold escape? at h
  repeat' split at h
  all_goals first
    | (cases h; subst_vars; decide)
    | cases h

theorem scan_other {c : Char} (hq : c ≠ '"') (hb : c ≠ '\\') (rest : Text) :
    scan (c :: rest) = (scan rest).cons c [c] := by
  rw [scan.eq_def]
  split <;> simp_all

theorem scan_plain {c : Char} (h : escape? c = none) (rest : Text) :
    scan (c :: rest) = (scan rest).cons c [c] := by
  have hq : c ≠ '"' := by rintro rfl; revert h; decide
  have hb : c ≠ '\\' := by rintro rfl; revert h; decide
  exact scan_other hq hb rest

theorem scan_encode (t rest : Text) :
    scan (encode t ++ '"' :: rest) = ⟨t, encode t ++ ['"'], rest, .closed⟩ := by
  induction t with
  | nil => rfl
  | cons c t ih =>
    unfold encode
    cases h : escape? c with
    | none => simp [scan_plain h, ih, Scan.cons]
    | some e => simp [scan, unescape?_of_escape? h, ih, Scan.cons]

theorem taken_append_left (t : Text) : (scan t).taken ++ (scan t).left = t := by
  fun_induction scan t <;> simp_all [Scan.cons]

end LayeredSettings.Quoted

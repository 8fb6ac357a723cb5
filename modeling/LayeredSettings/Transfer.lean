import LayeredSettings.Encoding.Fault

/-!
# Transfers

The bytes of a source as they arrive: portion by portion, until they end or no more of them can be
had. A file is read in portions of one size; what comes over a network comes as it may.
-/

namespace LayeredSettings

/-- The kinds of failures that fetching bytes and reading them may end in. -/
inductive Transfer.Kind where
  /-- A failure of the system, such as a connection that is refused. -/
  | system
  /-- A value that cannot be used, such as an address of an unknown kind. -/
  | value
  /-- Anything else, such as a server that breaks the protocol. -/
  | other
  deriving DecidableEq, Repr

structure Transfer.Failure where
  kind : Transfer.Kind
  reason : Text
  deriving DecidableEq, Repr

/-- Bytes that arrive in portions, and the failure behind them if they break off. -/
structure Transfer where
  portions : List (List UInt8)
  failure : Option Transfer.Failure
  /-- Only at the end does nothing arrive. -/
  ne_nil : ∀ portion ∈ portions, portion ≠ []
  deriving DecidableEq, Repr

/-- Why a text breaks off while it is read. -/
inductive Tear where
  | undecodable (fault : Encoding.Fault)
  | lost (failure : Transfer.Failure)
  deriving DecidableEq, Repr

namespace Transfer

/-- All bytes, unless they break off. -/
def whole (tr : Transfer) : Except Failure (List UInt8) :=
  match tr.failure with
  | none => .ok tr.portions.flatten
  | some f => .error f

/-! ## Files -/

/-- How many bytes of a file are read at a time. -/
def portionSize : Nat := 8192

/-- Bytes cut into portions, all but the last of them full. -/
def portionsOf (bytes : List UInt8) : List (List UInt8) :=
  if bytes = [] then [] else bytes.take portionSize :: portionsOf (bytes.drop portionSize)
termination_by bytes.length
decreasing_by
  rw [List.length_drop]
  exact Nat.sub_lt (List.length_pos_iff.2 ‹bytes ≠ []›) (by decide)

theorem flatten_portionsOf (bytes : List UInt8) : (portionsOf bytes).flatten = bytes := by
  fun_induction portionsOf bytes with
  | case1 => rfl
  | case2 bytes _ ih => rw [List.flatten_cons, ih, List.take_append_drop]

/-- Few bytes arrive at once. -/
theorem portionsOf_of_length_le {bytes : List UInt8} (hne : bytes ≠ [])
    (h : bytes.length ≤ portionSize) : portionsOf bytes = [bytes] := by
  rw [portionsOf, if_neg hne, List.take_of_length_le h, List.drop_of_length_le h, portionsOf,
    if_pos rfl]

theorem ne_nil_of_mem_portionsOf {bytes portion : List UInt8} (h : portion ∈ portionsOf bytes) :
    portion ≠ [] := by
  fun_induction portionsOf bytes with
  | case1 => cases h
  | case2 bytes hne ih =>
    rcases List.mem_cons.1 h with rfl | h
    · rw [ne_eq, List.take_eq_nil_iff, not_or]
      exact ⟨by decide, hne⟩
    · exact ih h

/-- Bytes that are all at hand, as those of a file are. -/
def ofBytes (bytes : List UInt8) : Transfer where
  portions := portionsOf bytes
  failure := none
  ne_nil := fun _ => ne_nil_of_mem_portionsOf

theorem whole_ofBytes (bytes : List UInt8) : (ofBytes bytes).whole = .ok bytes := by
  rw [whole, ofBytes, flatten_portionsOf]

end Transfer

end LayeredSettings

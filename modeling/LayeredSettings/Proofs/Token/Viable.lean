import LayeredSettings.Error
import LayeredSettings.Proofs.Token.Spelling

/-!
# How far a number is read

A number is read as far as the text can still become one: what is taken is the longest beginning of
the text that some numeral starts with (`LongestViable`). If that is a numeral it is the word read,
and otherwise it is malformed, even where a shorter beginning is a numeral (`read_longestViable`).

1. A scan takes every beginning of the text that the automaton follows (`prefix_scan_of_run`), and
   what the automaton follows is what some numeral starts with (`Number.viable_iff`).
2. Hence the longest viable beginning is what the scan takes (`longestViable_iff_scan`), and the
   state behind it accepts exactly if it is a numeral (`accepts_scan_iff`).
-/

namespace LayeredSettings

namespace Number

/-- `p` is the longest beginning of `t` that some numeral starts with. -/
structure LongestViable (t p : Text) : Prop where
  beginning : p <+: t
  viable : Viable p
  longest : ∀ q, q <+: t → Viable q → q.length ≤ p.length

theorem LongestViable.unique {t p q : Text} (hp : LongestViable t p) (hq : LongestViable t q) :
    p = q := by
  have hle : p.length ≤ q.length := hq.longest p hp.beginning hp.viable
  have hge : q.length ≤ p.length := hp.longest q hq.beginning hq.viable
  have hbegins : p <+: q := List.prefix_of_prefix_length_le hp.beginning hq.beginning hle
  exact hbegins.eq_of_length (Nat.le_antisymm hle hge)

/-- A scan does not stop inside a beginning that the automaton follows. -/
theorem prefix_scan_of_run {s st : State} {t q : Text} (hq : q <+: t) (h : s.run q = some st) :
    q <+: (scan s t).1 := by
  induction q generalizing s t with
  | nil => exact List.nil_prefix
  | cons c q ih =>
    obtain ⟨rest, rfl⟩ := hq
    obtain ⟨s', hnext, hrun⟩ := Option.bind_eq_some_iff.1 h
    rw [List.cons_append, scan, hnext]
    exact List.cons_prefix_cons.2 ⟨rfl, ih (List.prefix_append q rest) hrun⟩

theorem longestViable_scan (t : Text) : LongestViable t (scan .start t).1 where
  beginning := ⟨_, scan_append .start t⟩
  viable := viable_iff.2 ⟨_, run_scan .start t⟩
  longest := by
    intro q hq hviable
    obtain ⟨st, hrun⟩ := viable_iff.1 hviable
    exact (prefix_scan_of_run hq hrun).length_le

theorem longestViable_iff_scan {t p : Text} : LongestViable t p ↔ p = (scan .start t).1 := by
  constructor
  · exact fun h => h.unique (longestViable_scan t)
  · rintro rfl
    exact longestViable_scan t

/-- The automaton accepts where a scan stops exactly if the scan has taken a numeral. -/
theorem accepts_scan_iff (t : Text) :
    (scan .start t).2.2.accepts = true ↔ Numeral (scan .start t).1 := by
  rw [numeral_iff, run_scan]
  constructor
  · exact fun h => ⟨_, rfl, h⟩
  · rintro ⟨st, hst, haccepts⟩
    cases hst
    exact haccepts

end Number

namespace Lexer

open Token

/-- Of a text that starts with a sign or a digit a new lexer takes the longest beginning that some
numeral starts with. That is the word it reads if it is a numeral itself; otherwise it is reported,
in full, as a malformed number at its start. No shorter number is read in its place. -/
theorem read_longestViable {t : Text}
    (ht : t.head?.any (fun c => isSign c || Text.isDigit c) = true) :
    ∃ p u, t = p ++ u ∧ Number.LongestViable t p ∧
      (ofText t).read.start = {} ∧
      (ofText t).read.next = ⟨u, Position.after {} p, []⟩ ∧
      (Number.Numeral p → (ofText t).read.outcome = .ok (.word p)) ∧
      (¬ Number.Numeral p → ∃ f, (ofText t).read.outcome = .error f ∧ f.position = {} ∧
        f.reason = .malformedNumber p ∧
        f.reason.message = "unsupported number syntax '" ++ String.ofList p ++ "'") ∧
      ∀ token, (ofText t).read.outcome = .ok token → token = .word p := by
  cases t with
  | nil => cases ht
  | cons c rest =>
    have hread : (ofText (c :: rest)).read = readNumber {} [] (c :: rest) := read_number ht rest {}
    have haccepts := Number.accepts_scan_iff (c :: rest)
    rw [hread, readNumber]
    refine ⟨_, _, (Number.scan_append .start (c :: rest)).symm, Number.longestViable_scan _, rfl,
      rfl, ?_, ?_, ?_⟩
    · intro hnumeral
      simp only [List.nil_append, if_pos (haccepts.2 hnumeral)]
    · intro hnumeral
      refine ⟨⟨.malformedNumber (Number.scan .start (c :: rest)).1, {}⟩, ?_, rfl, rfl, rfl⟩
      simp only [List.nil_append, if_neg (mt haccepts.1 hnumeral)]
    · intro token htoken
      simp only [List.nil_append] at htoken
      split at htoken
      · cases htoken
        rfl
      · cases htoken

/-- A number that breaks off in its exponent is malformed up to there, although it starts with
numerals. -/
theorem read_longestViable_exponent :
    ("-1.5e+x".toList.head?.any fun c => isSign c || Text.isDigit c) = true ∧
      Number.LongestViable "-1.5e+x".toList "-1.5e+".toList ∧
      Number.Numeral "-1.5".toList ∧
      (ofText "-1.5e+x".toList).read.next = ⟨"x".toList, ⟨6, 1⟩, []⟩ ∧
      ∃ f, (ofText "-1.5e+x".toList).read.outcome = .error f ∧ f.position = {} ∧
        f.reason = .malformedNumber "-1.5e+".toList := by
  have hhead : ("-1.5e+x".toList.head?.any fun c => isSign c || Text.isDigit c) = true := by decide
  have hlongest : Number.LongestViable "-1.5e+x".toList "-1.5e+".toList :=
    Number.longestViable_iff_scan.2 rfl
  have hshort : Number.Numeral "-1.5".toList := Number.numeral_iff.2 ⟨.fraction, rfl, rfl⟩
  have hmalformed : ¬ Number.Numeral "-1.5e+".toList := by
    rw [Number.numeral_iff]
    rintro ⟨st, hrun, haccepts⟩
    cases hrun
    cases haccepts
  obtain ⟨p, u, htext, hp, -, hnext, -, herror, -⟩ := read_longestViable hhead
  obtain rfl : p = "-1.5e+".toList := hp.unique hlongest
  have hrest : "-1.5e+".toList ++ u = "-1.5e+".toList ++ "x".toList := htext.symm
  obtain rfl : u = "x".toList := List.append_cancel_left hrest
  obtain ⟨f, hf, hposition, hreason, -⟩ := herror hmalformed
  exact ⟨hhead, hlongest, hshort, hnext, f, hf, hposition, hreason⟩

end Lexer

end LayeredSettings

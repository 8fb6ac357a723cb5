import LayeredSettings.Yaml.Emitter
import Mathlib.Data.List.Nodup

/-!
# Escapes

An escape between double quotes is a backslash and a letter, or a backslash, a sign and as many
hexadecimal digits as the sign asks for. The digits of a number can be read back
(`ofHexadecimal_hexadecimal`), so that an escape tells its character wherever it stands
(`escape_append_inj`).
-/

namespace LayeredSettings

/-! ## Hexadecimal numbers -/

namespace Text

/-- The value of a digit, its letters in upper case. -/
def hexValue (c : Char) : Nat := if c.toNat < 0x41 then c.toNat - 0x30 else c.toNat - 0x37

/-- The number that hexadecimal digits stand for. -/
def ofHexadecimal (t : Text) : Nat := t.foldl (fun n c => 0x10 * n + hexValue c) 0

theorem hexValue_digitChar {n : Nat} (h : n < 16) : hexValue n.digitChar.toUpper = n := by
  have hall : ∀ k : Fin 16, hexValue k.val.digitChar.toUpper = k.val := by decide
  exact hall ⟨n, h⟩

theorem ofHexadecimal_concat (t : Text) (c : Char) :
    ofHexadecimal (t ++ [c]) = 0x10 * ofHexadecimal t + hexValue c := by
  unfold ofHexadecimal
  rw [List.foldl_append]
  rfl

theorem ofHexadecimal_toDigits (n : Nat) :
    ofHexadecimal ((Nat.toDigits 16 n).map Char.toUpper) = n := by
  induction n using Nat.strongRecOn with
  | ind n ih =>
    rw [Nat.toDigits_eq_if (by omega)]
    split
    · next hn =>
      show 0x10 * 0 + hexValue n.digitChar.toUpper = n
      rw [hexValue_digitChar hn]
      omega
    · next hn =>
      rw [List.map_append, List.map_singleton, ofHexadecimal_concat, ih (n / 16) (by omega),
        hexValue_digitChar (Nat.mod_lt n (by omega))]
      omega

theorem ofHexadecimal_replicate_append (k : Nat) (t : Text) :
    ofHexadecimal (List.replicate k '0' ++ t) = ofHexadecimal t := by
  induction k with
  | zero => rfl
  | succ k ih => exact ih

theorem ofHexadecimal_hexadecimal (width n : Nat) :
    ofHexadecimal ((hexadecimal width n).map Char.toUpper) = n := by
  unfold hexadecimal
  rw [List.map_append, List.map_replicate]
  show ofHexadecimal (List.replicate _ '0' ++ _) = n
  rw [ofHexadecimal_replicate_append, ofHexadecimal_toDigits]

theorem length_hexadecimal {width n : Nat} (hw : 0 < width) (hn : n < Nat.pow 16 width) :
    (hexadecimal width n).length = width := by
  have hle := (Nat.length_toDigits_le_iff (b := 16) (by omega) hw).2 hn
  unfold hexadecimal
  rw [List.length_append, List.length_replicate]
  omega

end Text

namespace Yaml

/-! ## Letters -/

/-- In a table without repeated letters, a letter tells what it stands for. -/
theorem eq_of_find?_fst {table : List (Char × Char)} (htable : (table.map Prod.snd).Nodup)
    {c d l : Char} (hc : (table.find? (·.1 = c)).map Prod.snd = some l)
    (hd : (table.find? (·.1 = d)).map Prod.snd = some l) : c = d := by
  obtain ⟨p, hp, rfl⟩ := Option.map_eq_some_iff.1 hc
  obtain ⟨q, hq, he⟩ := Option.map_eq_some_iff.1 hd
  have hpq : q = p := List.inj_on_of_nodup_map htable (List.mem_of_find?_eq_some hq)
    (List.mem_of_find?_eq_some hp) he
  have hpc : p.1 = c := by simpa using List.find?_some hp
  have hqd : q.1 = d := by simpa using List.find?_some hq
  rw [← hpc, ← hqd, hpq]

theorem escapeLetter?_inj {c d l : Char} (hc : escapeLetter? c = some l)
    (hd : escapeLetter? d = some l) : c = d := by
  unfold escapeLetter? at hc hd
  exact eq_of_find?_fst (by decide) hc hd

/-- The letters of escapes. -/
theorem escapeLetter?_mem {c l : Char} (h : escapeLetter? c = some l) :
    l ∈ "0abtnvfre\"\\N_LP".toList := by
  unfold escapeLetter? at h
  obtain ⟨p, hp, rfl⟩ := Option.map_eq_some_iff.1 h
  exact List.mem_map_of_mem (List.mem_of_find?_eq_some hp)

/-! ## Escapes -/

/-- The signs of numbers, each with the number of its digits. -/
def numberSigns : List (Char × Nat) := [('x', 2), ('u', 4), ('U', 8)]

theorem pos_of_mem_numberSigns {sign : Char} {width : Nat} (h : (sign, width) ∈ numberSigns) :
    0 < width := by
  simp only [numberSigns, List.mem_cons, Prod.mk.injEq, List.not_mem_nil, or_false] at h
  omega

/-- An escape without a letter is a sign and a number. -/
theorem escape_of_none {c : Char} (h : escapeLetter? c = none) :
    ∃ sign width, (sign, width) ∈ numberSigns ∧ c.toNat < Nat.pow 16 width ∧
      escape c = '\\' :: sign :: (Text.hexadecimal width c.toNat).map Char.toUpper := by
  unfold escape
  rw [h]
  by_cases h2 : c.toNat ≤ 0xff
  · exact ⟨'x', 2, by simp [numberSigns], Nat.lt_succ_of_le h2, if_pos h2⟩
  · by_cases h4 : c.toNat ≤ 0xffff
    · refine ⟨'u', 4, by simp [numberSigns], Nat.lt_succ_of_le h4, ?_⟩
      show (if c.toNat ≤ 0xff then _ else if c.toNat ≤ 0xffff then _ else _) = _
      rw [if_neg h2, if_pos h4]
    · have hlt : c.toNat < 0x110000 := by
        rcases c.valid with hv | hv
        · exact Nat.lt_trans hv (by omega)
        · exact hv.2
      refine ⟨'U', 8, by simp [numberSigns], Nat.lt_trans hlt (by decide), ?_⟩
      show (if c.toNat ≤ 0xff then _ else if c.toNat ≤ 0xffff then _ else _) = _
      rw [if_neg h2, if_neg h4]

theorem escape_of_some {c l : Char} (h : escapeLetter? c = some l) : escape c = ['\\', l] := by
  unfold escape
  rw [h]

/-- An escape is a backslash, and behind it a sign or a letter. -/
theorem escape_eq_cons (c : Char) :
    ∃ l rest, escape c = '\\' :: l :: rest ∧ l ≠ ' ' ∧ l ≠ '\n' := by
  cases hc : escapeLetter? c with
  | some l =>
    refine ⟨l, [], escape_of_some hc, ?_, ?_⟩
    · rintro rfl
      exact absurd (escapeLetter?_mem hc) (by decide)
    · rintro rfl
      exact absurd (escapeLetter?_mem hc) (by decide)
  | none =>
    obtain ⟨sign, width, hsign, -, he⟩ := escape_of_none hc
    refine ⟨sign, _, he, ?_, ?_⟩
    · rintro rfl
      simp [numberSigns] at hsign
    · rintro rfl
      simp [numberSigns] at hsign

/-- An escape tells its character, whatever stands behind it. -/
theorem escape_append_inj {c d : Char} {r r' : Text} (h : escape c ++ r = escape d ++ r') :
    c = d ∧ r = r' := by
  have hletter : ∀ {l sign : Char} {c : Char} {width : Nat}, escapeLetter? c = some l →
      (sign, width) ∈ numberSigns → l ≠ sign := by
    rintro l sign c width hl hsign rfl
    have hmem := escapeLetter?_mem hl
    simp only [numberSigns, List.mem_cons, Prod.mk.injEq, List.not_mem_nil, or_false] at hsign
    rcases hsign with ⟨rfl, -⟩ | ⟨rfl, -⟩ | ⟨rfl, -⟩ <;> exact absurd hmem (by decide)
  cases hc : escapeLetter? c with
  | some l =>
    cases hd : escapeLetter? d with
    | some m =>
      rw [escape_of_some hc, escape_of_some hd] at h
      obtain ⟨rfl, rfl⟩ : l = m ∧ r = r' := by simpa using h
      exact ⟨escapeLetter?_inj hc hd, rfl⟩
    | none =>
      obtain ⟨sign, width, hsign, -, he⟩ := escape_of_none hd
      rw [escape_of_some hc, he] at h
      exact absurd (List.cons.inj (List.cons.inj h).2).1 (hletter hc hsign)
  | none =>
    obtain ⟨sign, width, hsign, hwidth, he⟩ := escape_of_none hc
    cases hd : escapeLetter? d with
    | some m =>
      rw [escape_of_some hd, he] at h
      exact absurd (List.cons.inj (List.cons.inj h).2).1.symm (hletter hd hsign)
    | none =>
      obtain ⟨sign', width', hsign', hwidth', he'⟩ := escape_of_none hd
      rw [he, he'] at h
      obtain ⟨rfl, hdigits⟩ := List.cons.inj (List.cons.inj h).2
      have hsigns : (numberSigns.map Prod.fst).Nodup := by decide
      have hwidths : (sign, width) = (sign, width') :=
        List.inj_on_of_nodup_map hsigns hsign hsign' rfl
      obtain rfl : width = width' := (Prod.mk.inj hwidths).2
      have hpos := pos_of_mem_numberSigns hsign
      obtain ⟨hnumber, hrest⟩ := List.append_inj hdigits (by
        rw [List.length_map, List.length_map, Text.length_hexadecimal hpos hwidth,
          Text.length_hexadecimal hpos hwidth'])
      have hvalue := congrArg Text.ofHexadecimal hnumber
      rw [Text.ofHexadecimal_hexadecimal, Text.ofHexadecimal_hexadecimal] at hvalue
      exact ⟨Char.toNat_inj.1 hvalue, hrest⟩

end Yaml

end LayeredSettings

import LayeredSettings.Text.Basic

/-!
# Lookalikes of delimiters

The characters beyond ASCII whose compatibility form (Unicode normal form NFKC) has one of the
delimiters of a URL in it. A host written with one of them would change its meaning if it were
normalised.
-/

namespace LayeredSettings.Url

/-- The code points whose compatibility form has a slash, question mark, hash, at sign or colon in
it. -/
def lookalikes : List Nat :=
  [0x2047, 0x2048, 0x2049, 0x2100, 0x2101, 0x2105, 0x2106, 0x2a74, 0xfe13, 0xfe16, 0xfe55, 0xfe56,
    0xfe5f, 0xfe6b, 0xff03, 0xff0f, 0xff1a, 0xff1f, 0xff20]

/-- Whether a character turns into a delimiter when it is normalised. -/
def isLookalike (c : Char) : Bool := lookalikes.contains c.toNat

end LayeredSettings.Url

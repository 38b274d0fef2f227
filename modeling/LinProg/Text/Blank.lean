import LinProg.Text.Ranges

/-!
# Blank space

Blank characters are those with the Unicode property `White_Space`. Trimming removes them from
the ends of a text.
-/

namespace LinProg.Text

/-- The code points with the property `White_Space`. -/
def blankRanges : List (Nat × Nat) :=
  [(0x9, 0xd), (0x20, 0x20), (0x85, 0x85), (0xa0, 0xa0), (0x1680, 0x1680), (0x2000, 0x200a),
    (0x2028, 0x2029), (0x202f, 0x202f), (0x205f, 0x205f), (0x3000, 0x3000)]

def isBlank (c : Char) : Bool := inRanges blankRanges c.toNat

/-- The text without the trailing characters that satisfy a test. -/
def dropTrailing (test : Char → Bool) (text : List Char) : List Char :=
  (text.reverse.dropWhile test).reverse

/-- The text without trailing blanks. -/
def trimEnd (text : List Char) : List Char := dropTrailing isBlank text

/-- The text without blanks at either end. -/
def trim (text : List Char) : List Char := trimEnd (text.dropWhile isBlank)

/-- What is dropped from the end is a run of characters that satisfy the test. -/
theorem dropTrailing_append (test : Char → Bool) (text : List Char) :
    ∃ dropped, text = dropTrailing test text ++ dropped ∧ ∀ c ∈ dropped, test c = true := by
  refine ⟨(text.reverse.takeWhile test).reverse, ?_, ?_⟩
  · rw [dropTrailing, ← List.reverse_append, List.takeWhile_append_dropWhile,
      List.reverse_reverse]
  · intro c hc
    exact (List.all_eq_true.mp List.all_takeWhile) c (List.mem_reverse.mp hc)

end LinProg.Text

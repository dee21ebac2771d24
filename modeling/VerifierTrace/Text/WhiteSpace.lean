/-!
# White space and the ends of lines

The characters with the Unicode property `White_Space`, as ranges of code points, and the removal of
a class of characters from the end of a text. Inside the grammar of a line only spaces and tabs
separate tokens; the whole property counts where free text is trimmed at its end.
-/

set_option autoImplicit false
set_option relaxedAutoImplicit false

namespace VerifierTrace

/-- The code points with the property `White_Space`, first and last of each range. -/
def whiteSpaceRanges : List (Nat × Nat) :=
  [(0x09, 0x0D), (0x20, 0x20), (0x85, 0x85), (0xA0, 0xA0), (0x1680, 0x1680), (0x2000, 0x200A),
    (0x2028, 0x2029), (0x202F, 0x202F), (0x205F, 0x205F), (0x3000, 0x3000)]

def isWhiteSpace (c : Char) : Bool :=
  whiteSpaceRanges.any fun range ↦ range.1 ≤ c.toNat && c.toNat ≤ range.2

/-- The characters that end a line. -/
def isLineEnd (c : Char) : Bool :=
  c == '\n' || c == '\r'

/-- Removes the longest run of a class of characters from the end of a text. -/
def trimEndWhile (inClass : Char → Bool) (text : List Char) : List Char :=
  (text.reverse.dropWhile inClass).reverse

/-- A text without white space at its end. -/
def trimEnd (text : List Char) : List Char :=
  trimEndWhile isWhiteSpace text

/-- Trimming removes nothing but characters of the class. -/
theorem trimEndWhile_append (inClass : Char → Bool) (text : List Char) :
    ∃ removed, text = trimEndWhile inClass text ++ removed ∧ ∀ c ∈ removed, inClass c := by
  refine ⟨(text.reverse.takeWhile inClass).reverse, ?_, ?_⟩
  · rw [trimEndWhile, ← List.reverse_append, List.takeWhile_append_dropWhile, List.reverse_reverse]
  · intro c hc
    have := List.all_takeWhile (p := inClass) (l := text.reverse)
    exact List.all_eq_true.1 this c (List.mem_reverse.1 hc)

end VerifierTrace

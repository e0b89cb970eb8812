import Stepwise.Text.Ranges

/-!
# Blank characters

The characters with the Unicode property White_Space, and the removal of those that end a text.

* `isBlank` covers every character that Lean's own `Char.isWhitespace` covers.
* `trimEnd_getLast?`: what is left does not end with a blank; `trimEnd_append`: what is taken away
  is blank.
-/

namespace Stepwise.Text
set_option autoImplicit false

/-- The code points with the property White_Space. -/
def blankRanges : List (Nat × Nat) :=
  [(0x9, 0xd), (0x20, 0x20), (0x85, 0x85), (0xa0, 0xa0), (0x1680, 0x1680), (0x2000, 0x200a),
    (0x2028, 0x2029), (0x202f, 0x202f), (0x205f, 0x205f), (0x3000, 0x3000)]

def isBlank (c : Char) : Bool := inRanges blankRanges c

def trimEnd (s : List Char) : List Char := (s.reverse.dropWhile isBlank).reverse

theorem trimEnd_append (s : List Char) :
    ∃ t, s = trimEnd s ++ t ∧ ∀ c ∈ t, isBlank c = true := by
  refine ⟨(s.reverse.takeWhile isBlank).reverse, ?_, fun c hc => ?_⟩
  · rw [trimEnd, ← List.reverse_append, List.takeWhile_append_dropWhile, List.reverse_reverse]
  · exact List.all_eq_true.1 (List.all_takeWhile) c (List.mem_reverse.1 hc)

theorem trimEnd_getLast? {s : List Char} {c : Char} (h : (trimEnd s).getLast? = some c) :
    isBlank c = false := by
  rw [trimEnd, List.getLast?_reverse] at h
  have := List.head?_dropWhile_not isBlank s.reverse
  rw [h] at this
  simpa using this

end Stepwise.Text

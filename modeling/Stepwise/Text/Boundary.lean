/-!
# Byte boundaries of characters

Sizes and cuts of a text are counted in the bytes of its UTF-8 form, and a cut never splits a
character.

* `byteSize` counts the bytes, `isBoundary s n` says that the first `n` bytes are whole
  characters, and `takeBytes s n` is the text they form.
* `floorBoundary s n` is the boundary found by going back from `n`: it is one
  (`isBoundary_floorBoundary`), it does not lie behind `n` (`floorBoundary_le`), and no boundary
  lies between (`le_floorBoundary`).
-/

namespace Stepwise.Text
set_option autoImplicit false

def byteSize : List Char → Nat
  | [] => 0
  | c :: rest => c.utf8Size + byteSize rest

/-- The first `n` bytes are whole characters of the text. -/
def isBoundary : List Char → Nat → Bool
  | _, 0 => true
  | [], _ + 1 => false
  | c :: s, n + 1 => decide (c.utf8Size ≤ n + 1) && isBoundary s (n + 1 - c.utf8Size)

/-- The whole characters among the first `n` bytes. -/
def takeBytes : List Char → Nat → List Char
  | [], _ => []
  | c :: s, n => if c.utf8Size ≤ n then c :: takeBytes s (n - c.utf8Size) else []

/-- The last boundary at or before `n`. -/
def floorBoundary (s : List Char) : Nat → Nat
  | 0 => 0
  | n + 1 => if isBoundary s (n + 1) then n + 1 else floorBoundary s n

@[simp] theorem byteSize_nil : byteSize [] = 0 := rfl

@[simp] theorem byteSize_cons (c : Char) (s : List Char) :
    byteSize (c :: s) = c.utf8Size + byteSize s := rfl

@[simp] theorem byteSize_append (s t : List Char) :
    byteSize (s ++ t) = byteSize s + byteSize t := by
  induction s with
  | nil => simp
  | cons c rest ih => rw [List.cons_append, byteSize_cons, byteSize_cons, ih, Nat.add_assoc]

@[simp] theorem isBoundary_zero (s : List Char) : isBoundary s 0 = true := by
  cases s <;> rfl

theorem isBoundary_floorBoundary (s : List Char) (n : Nat) :
    isBoundary s (floorBoundary s n) = true := by
  induction n with
  | zero => exact isBoundary_zero s
  | succ n ih =>
    rw [floorBoundary]
    split
    · assumption
    · exact ih

theorem floorBoundary_le (s : List Char) (n : Nat) : floorBoundary s n ≤ n := by
  induction n with
  | zero => exact Nat.le_refl 0
  | succ n ih =>
    rw [floorBoundary]
    split
    · exact Nat.le_refl _
    · omega

theorem le_floorBoundary {s : List Char} {n m : Nat} (hm : isBoundary s m = true) (h : m ≤ n) :
    m ≤ floorBoundary s n := by
  induction n with
  | zero => simpa [floorBoundary] using h
  | succ n ih =>
    rw [floorBoundary]
    split
    · exact h
    · next hb =>
      have hne : m ≠ n + 1 := by rintro rfl; exact hb hm
      exact ih (by omega)

end Stepwise.Text

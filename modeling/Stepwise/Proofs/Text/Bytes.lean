import Stepwise.Text.Boundary

/-! # Cutting the bytes of a text

A text is held as bytes in its UTF-8 form, and not every place between two bytes is one between two characters.

* `isBoundary_iff`: the boundaries of a text are the sizes of its starts. They are the places at which the bytes of
  a string may be cut (`isValid_eq_isBoundary`), and the bytes before a boundary are the UTF-8 form of the start
  (`fromUTF8?_extract`).
* `placeBefore?` goes back over the bytes to such a place and has no answer where it would pass the first byte;
  `placeBefore?_eq_some`: it finds `floorBoundary`, so it never does.
* `LongestStart limit s p`: of the starts of `s` that fit in `limit` bytes, `p` is the longest.
  `longestStart_takeBytes`: it is the one that ends at `floorBoundary`; `LongestStart.size_of_lt`: where it is not
  the whole text, less than one character of the limit is left over.
-/

namespace Stepwise.Text
set_option autoImplicit false

/-! ## Starts and boundaries -/

theorem takeBytes_isPrefix (s : List Char) (n : Nat) : takeBytes s n <+: s := by
  induction s generalizing n with
  | nil => exact List.nil_prefix
  | cons c s ih =>
    rw [takeBytes]
    split
    · exact List.cons_prefix_cons.2 ⟨rfl, ih _⟩
    · exact List.nil_prefix

theorem byteSize_le_of_isPrefix {p s : List Char} (h : p <+: s) : byteSize p ≤ byteSize s := by
  obtain ⟨rest, rfl⟩ := h
  rw [byteSize_append]
  omega

theorem takeBytes_byteSize {p s : List Char} (h : p <+: s) : takeBytes s (byteSize p) = p := by
  induction s generalizing p with
  | nil => simp [List.prefix_nil.1 h, takeBytes]
  | cons c s ih =>
    have hc : 0 < c.utf8Size := c.utf8Size_pos
    obtain rfl | ⟨p, rfl, hp⟩ := List.prefix_cons_iff.1 h
    · rw [byteSize_nil, takeBytes, if_neg (by omega)]
    · rw [byteSize_cons, takeBytes, if_pos (by omega), Nat.add_sub_cancel_left, ih hp]

theorem isBoundary_cons {c : Char} {s : List Char} {n : Nat} (hn : n ≠ 0) :
    isBoundary (c :: s) n = true ↔ c.utf8Size ≤ n ∧ isBoundary s (n - c.utf8Size) = true := by
  obtain ⟨n, rfl⟩ := Nat.exists_eq_succ_of_ne_zero hn
  simp [isBoundary]

/-- The boundaries are the sizes of the starts of the text. -/
theorem isBoundary_iff {s : List Char} {n : Nat} :
    isBoundary s n = true ↔ ∃ p, p <+: s ∧ byteSize p = n := by
  induction s generalizing n with
  | nil =>
    cases n with
    | zero => simp [List.prefix_nil]
    | succ n => simp [isBoundary, List.prefix_nil]
  | cons c s ih =>
    have hc : 0 < c.utf8Size := c.utf8Size_pos
    by_cases hn : n = 0
    · subst hn
      exact iff_of_true (isBoundary_zero _) ⟨[], List.nil_prefix, rfl⟩
    rw [isBoundary_cons hn, ih]
    constructor
    · rintro ⟨hle, p, hp, hsize⟩
      refine ⟨c :: p, List.cons_prefix_cons.2 ⟨rfl, hp⟩, ?_⟩
      rw [byteSize_cons]
      omega
    · rintro ⟨q, hq, hsize⟩
      obtain rfl | ⟨p, rfl, hp⟩ := List.prefix_cons_iff.1 hq
      · exact absurd hsize.symm hn
      · rw [byteSize_cons] at hsize
        exact ⟨by omega, p, hp, by omega⟩

theorem byteSize_takeBytes {s : List Char} {n : Nat} (h : isBoundary s n = true) :
    byteSize (takeBytes s n) = n := by
  obtain ⟨p, hp, rfl⟩ := isBoundary_iff.1 h
  rw [takeBytes_byteSize hp]

/-! ## Strings as bytes -/

theorem byteSize_eq_utf8ByteSize (s : List Char) : byteSize s = (String.ofList s).utf8ByteSize := by
  induction s with
  | nil => simp
  | cons c s ih => rw [byteSize_cons, String.ofList_cons, String.utf8ByteSize_append, String.utf8ByteSize_singleton, ih]

theorem byteSize_toList (s : String) : byteSize s.toList = s.utf8ByteSize := by
  rw [byteSize_eq_utf8ByteSize, String.ofList_toList]

/-- The bytes of a string may be cut at the boundaries of its text. -/
theorem isValid_eq_isBoundary (s : String) (n : Nat) : String.Pos.Raw.isValid s ⟨n⟩ = isBoundary s.toList n := by
  rw [Bool.eq_iff_iff, String.Pos.Raw.isValid_eq_true_iff, String.Pos.Raw.isValid_iff_exists_append, isBoundary_iff]
  constructor
  · rintro ⟨p, rest, rfl, hn⟩
    refine ⟨p.toList, ⟨rest.toList, String.toList_append.symm⟩, ?_⟩
    rw [byteSize_toList]
    exact (congrArg String.Pos.Raw.byteIdx hn).symm
  · rintro ⟨p, ⟨rest, hrest⟩, rfl⟩
    refine ⟨String.ofList p, String.ofList rest, ?_, ?_⟩
    · rw [← String.ofList_append, hrest, String.ofList_toList]
    · rw [byteSize_eq_utf8ByteSize]
      rfl

/-- What stands before a boundary is the UTF-8 form of a start of the text. -/
theorem fromUTF8?_extract {s : String} {n : Nat} (h : isBoundary s.toList n = true) :
    String.fromUTF8? (s.toUTF8.extract 0 n) = some (String.ofList (takeBytes s.toList n)) := by
  obtain ⟨p, ⟨rest, hrest⟩, rfl⟩ := isBoundary_iff.1 h
  rw [takeBytes_byteSize ⟨rest, hrest⟩]
  have hs : s = String.ofList p ++ String.ofList rest := by
    rw [← String.ofList_append, hrest, String.ofList_toList]
  have hbytes : s.toUTF8.extract 0 (byteSize p) = (String.ofList p).toByteArray := by
    rw [byteSize_eq_utf8ByteSize, hs]
    change ByteArray.extract (String.toByteArray (_ ++ _)) 0 _ = _
    rw [String.toByteArray_append]
    exact ByteArray.extract_append_eq_left rfl
  rw [hbytes, String.fromUTF8?, dif_pos (String.ofList p).isValidUTF8]
  rfl

/-- Go back from the `n`-th byte to a place where the bytes may be cut. -/
def placeBefore? (s : String) : Nat → Option Nat
  | 0 => if String.Pos.Raw.isValid s ⟨0⟩ then some 0 else none
  | n + 1 => if String.Pos.Raw.isValid s ⟨n + 1⟩ then some (n + 1) else placeBefore? s n

theorem placeBefore?_eq_some (s : String) (n : Nat) : placeBefore? s n = some (floorBoundary s.toList n) := by
  induction n with
  | zero => rw [placeBefore?, isValid_eq_isBoundary, isBoundary_zero, if_pos rfl, floorBoundary]
  | succ n ih =>
    rw [placeBefore?, floorBoundary, isValid_eq_isBoundary]
    split
    · rfl
    · exact ih

/-! ## The longest start within a limit -/

/-- Of the starts of a text that fit in `limit` bytes, `p` is the longest. -/
structure LongestStart (limit : Nat) (s p : String) : Prop where
  start : p.toList <+: s.toList
  fits : p.utf8ByteSize ≤ limit
  longest : ∀ q : String, q.toList <+: s.toList → q.utf8ByteSize ≤ limit → q.toList <+: p.toList

/-- It ends at the last boundary within the limit. -/
theorem longestStart_takeBytes (limit : Nat) (s : String) :
    LongestStart limit s
      (String.ofList (takeBytes s.toList (floorBoundary s.toList (min s.utf8ByteSize limit)))) := by
  have hboundary := isBoundary_floorBoundary s.toList (min s.utf8ByteSize limit)
  have hle := floorBoundary_le s.toList (min s.utf8ByteSize limit)
  have hsize := byteSize_takeBytes hboundary
  constructor
  · rw [String.toList_ofList]
    exact takeBytes_isPrefix _ _
  · rw [← byteSize_eq_utf8ByteSize, hsize]
    omega
  · intro q hq hlimit
    have hwhole := byteSize_le_of_isPrefix hq
    rw [byteSize_toList, byteSize_toList] at hwhole
    have hplace : q.utf8ByteSize ≤ floorBoundary s.toList (min s.utf8ByteSize limit) :=
      le_floorBoundary (isBoundary_iff.2 ⟨q.toList, hq, byteSize_toList q⟩) (by omega)
    rw [String.toList_ofList]
    -- of two starts of one text the one with fewer bytes is a start of the other one
    refine (List.prefix_or_prefix_of_prefix hq (takeBytes_isPrefix _ _)).elim id fun hp => ?_
    obtain ⟨more, hmore⟩ := hp
    have hsum := congrArg byteSize hmore
    rw [byteSize_append, hsize, byteSize_toList] at hsum
    cases more with
    | nil => exact ⟨[], by rw [← hmore, List.append_nil, List.append_nil]⟩
    | cons c more =>
      have hc : 0 < c.utf8Size := c.utf8Size_pos
      rw [byteSize_cons] at hsum
      omega

namespace LongestStart

variable {limit : Nat} {s p : String}

theorem eq_of_le (h : LongestStart limit s p) (hs : s.utf8ByteSize ≤ limit) : p = s := by
  have hwhole := h.longest s List.prefix_rfl hs
  exact String.toList_injective (h.start.eq_of_length_le hwhole.length_le)

theorem ne_of_lt (h : LongestStart limit s p) (hs : limit < s.utf8ByteSize) : p ≠ s := by
  rintro rfl
  exact absurd h.fits (Nat.not_le.2 hs)

/-- The next character does not fit, and it has no more than four bytes. -/
theorem size_of_lt (h : LongestStart limit s p) (hs : limit < s.utf8ByteSize) : limit < p.utf8ByteSize + 4 := by
  obtain ⟨rest, hrest⟩ := h.start
  cases rest with
  | nil =>
    rw [List.append_nil] at hrest
    exact absurd (String.toList_injective hrest) (h.ne_of_lt hs)
  | cons c rest =>
    have hsize : (String.ofList (p.toList ++ [c])).utf8ByteSize = p.utf8ByteSize + c.utf8Size := by
      rw [← byteSize_eq_utf8ByteSize, byteSize_append, byteSize_toList, byteSize_cons, byteSize_nil, Nat.add_zero]
    have hc : c.utf8Size ≤ 4 := c.utf8Size_le_four
    refine Nat.lt_of_not_le fun hfits => ?_
    have hnext : (String.ofList (p.toList ++ [c])).toList <+: p.toList := by
      refine h.longest _ ?_ (by omega)
      rw [String.toList_ofList]
      exact ⟨rest, by rw [← hrest, List.append_assoc, List.singleton_append]⟩
    have hlength := hnext.length_le
    rw [String.toList_ofList, List.length_append, List.length_singleton] at hlength
    omega

end LongestStart

end Stepwise.Text

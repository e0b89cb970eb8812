import Stepwise.Statement
import Stepwise.Proofs.Text.Bytes

/-! # Displayed statements

A statement is displayed by the longest of its starts that fits in the limit, without the blanks at its end. The
mark stands exactly where this start is not the whole statement, whether or not blanks were taken away.

* `displayBytes?` finds the form on the bytes of the statement. It has no answer where the search for the place to
  cut passes the first byte, and none where the bytes that are cut are not the UTF-8 form of a text.
* `display_eq`: the form by the part that is kept, `kept`, which is the longest start (`longestStart_kept`).
* `display_keeps_longest`: the two are the same for every statement, and how long the part and the form are.
-/

namespace Stepwise.Statement
set_option autoImplicit false

open Text

/-! ## Without the blanks at the end -/

/-- The second text is the first one without the blanks at its end. -/
structure Trimmed (s t : String) : Prop where
  blanks : ∃ rest : List Char, s.toList = t.toList ++ rest ∧ ∀ c ∈ rest, isBlank c = true
  last : ∀ c, t.toList.getLast? = some c → isBlank c = false

def trim (s : String) : String := String.ofList (trimEnd s.toList)

theorem trim_spec (s : String) : Trimmed s (trim s) := by
  constructor
  · rw [trim, String.toList_ofList]
    exact trimEnd_append s.toList
  · intro c hc
    rw [trim, String.toList_ofList] at hc
    exact trimEnd_getLast? hc

namespace Trimmed

variable {s t : String}

theorem isPrefix (h : Trimmed s t) : t.toList <+: s.toList := by
  obtain ⟨rest, hs, -⟩ := h.blanks
  exact ⟨rest, hs.symm⟩

theorem utf8ByteSize_le (h : Trimmed s t) : t.utf8ByteSize ≤ s.utf8ByteSize := by
  rw [← byteSize_toList, ← byteSize_toList]
  exact byteSize_le_of_isPrefix h.isPrefix

end Trimmed

/-! ## The part that is kept -/

/-- The part of a statement that its form is made of. -/
def kept (sql : String) : String := String.ofList (shown sql.toList)

theorem kept_eq (sql : String) :
    kept sql = String.ofList
      (takeBytes sql.toList (floorBoundary sql.toList (min sql.utf8ByteSize displayLimit))) := by
  rw [kept, shown, byteSize_toList]

theorem longestStart_kept (sql : String) : LongestStart displayLimit sql (kept sql) := by
  rw [kept_eq]
  exact longestStart_takeBytes displayLimit sql

theorem length_kept_lt_iff (sql : String) : (kept sql).toList.length < sql.toList.length ↔ kept sql ≠ sql := by
  have hstart := (longestStart_kept sql).start
  constructor
  · intro hlt heq
    rw [heq] at hlt
    exact absurd hlt (Nat.lt_irrefl _)
  · intro hne
    have hle := hstart.length_le
    have hlength : (kept sql).toList.length ≠ sql.toList.length := fun h =>
      hne (String.toList_injective (hstart.eq_of_length h))
    omega

theorem display_eq (sql : String) :
    display sql = trim (kept sql) ++ if kept sql = sql then "" else "..." := by
  have hlength := length_kept_lt_iff sql
  rw [kept, String.toList_ofList, ← kept] at hlength
  rw [display, trim, kept, String.toList_ofList, ← kept]
  by_cases hkept : kept sql = sql
  · rw [if_pos hkept, if_neg (fun hlt => hlength.1 hlt hkept), List.append_nil, String.append_empty]
  · rw [if_neg hkept, if_pos (hlength.2 hkept), String.ofList_append]

/-! ## On the bytes -/

/-- The form of a statement, found on its bytes. -/
def displayBytes? (sql : String) : Option String := do
  let stop ← placeBefore? sql (min sql.utf8ByteSize displayLimit)
  let kept ← String.fromUTF8? (sql.toUTF8.extract 0 stop)
  pure (trim kept ++ if stop < sql.utf8ByteSize then "..." else "")

theorem displayBytes?_eq (sql : String) : displayBytes? sql = some (display sql) := by
  have hboundary := isBoundary_floorBoundary sql.toList (min sql.utf8ByteSize displayLimit)
  have hsize : (kept sql).utf8ByteSize = floorBoundary sql.toList (min sql.utf8ByteSize displayLimit) := by
    rw [kept_eq, ← byteSize_eq_utf8ByteSize, byteSize_takeBytes hboundary]
  have hkept := longestStart_kept sql
  -- a start is the whole text exactly if it has all the bytes
  have hwhole : (kept sql).utf8ByteSize < sql.utf8ByteSize ↔ kept sql ≠ sql := by
    constructor
    · intro hlt heq
      rw [heq] at hlt
      exact absurd hlt (Nat.lt_irrefl _)
    · intro hne
      refine Nat.lt_of_not_le fun hle => hne ?_
      exact hkept.eq_of_le (Nat.le_trans hle hkept.fits)
  rw [displayBytes?, placeBefore?_eq_some, Option.bind_eq_bind, Option.bind_some,
    fromUTF8?_extract hboundary, ← kept_eq, ← hsize, display_eq]
  by_cases heq : kept sql = sql
  · simp [heq]
  · simp [hwhole.2 heq, heq]

/-- How a statement is displayed of which this part is kept. -/
structure Displays (sql part : String) : Prop where
  /-- The search on the bytes does not pass the first one and does not end inside a character. -/
  found : displayBytes? sql = some (display sql)
  longest : LongestStart 497 sql part
  trimmed : Trimmed part (trim part)
  marked : display sql = trim part ++ if part = sql then "" else "..."
  short : sql.utf8ByteSize ≤ 497 → display sql = trim sql
  long : 497 < sql.utf8ByteSize → display sql = trim part ++ "..." ∧ 494 ≤ part.utf8ByteSize
  size : (display sql).utf8ByteSize ≤ 500
  /-- Apart from the mark it is a start of the statement. -/
  start : (trim part).toList <+: sql.toList

/-- Every statement is displayed by its longest start of whole characters within the limit. -/
theorem display_keeps_longest (sql : String) : ∃ part, Displays sql part := by
  have hkept := longestStart_kept sql
  have htrimmed := trim_spec (kept sql)
  have hle := htrimmed.utf8ByteSize_le
  have hfits : (kept sql).utf8ByteSize ≤ 497 := hkept.fits
  refine ⟨kept sql, displayBytes?_eq sql, hkept, htrimmed, display_eq sql, ?_, ?_, ?_, ?_⟩
  · intro hshort
    have hwhole := hkept.eq_of_le hshort
    rw [display_eq, hwhole, if_pos rfl, String.append_empty]
  · intro hlong
    have hsize : 497 < (kept sql).utf8ByteSize + 4 := hkept.size_of_lt hlong
    refine ⟨?_, by omega⟩
    rw [display_eq, if_neg (hkept.ne_of_lt hlong)]
  · rw [display_eq, String.utf8ByteSize_append]
    have hmark : (if kept sql = sql then "" else "...").utf8ByteSize ≤ 3 := by
      split
      · exact Nat.zero_le 3
      · exact Nat.le_refl 3
    omega
  · exact htrimmed.isPrefix.trans hkept.start

end Stepwise.Statement

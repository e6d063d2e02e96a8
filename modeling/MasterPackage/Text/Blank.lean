/-!
# Blank characters

A character is blank when it has the Unicode property White_Space.  Identifiers,
paths and titles are read without the blanks around them, and an element whose
text is all blank counts as empty.

* `trim_eq_nil_iff`: nothing is left of a text exactly when all of it is blank.
* `trimFront_append_of_blank`, `trimBack_append_of_blank`: blanks added at an end are
  cut off again.
-/

namespace MasterPackage.Text

/-- The characters with the Unicode property White_Space. -/
def isBlank (c : Char) : Bool :=
  let n := c.toNat
  (0x09 ≤ n && n ≤ 0x0D) || n == 0x20 || n == 0x85 || n == 0xA0 || n == 0x1680 ||
    (0x2000 ≤ n && n ≤ 0x200A) || n == 0x2028 || n == 0x2029 || n == 0x202F ||
    n == 0x205F || n == 0x3000

/-- The text without the blanks at its front. -/
def trimFront (s : List Char) : List Char := s.dropWhile isBlank

/-- The text without the blanks at its end. -/
def trimBack (s : List Char) : List Char := (s.reverse.dropWhile isBlank).reverse

/-- The text without the blanks at either end. -/
def trim (s : List Char) : List Char := trimBack (trimFront s)

/-- A string without the blanks at either end. -/
def trimmed (s : String) : String := String.ofList (trim s.toList)

theorem trimFront_eq_nil_iff {s : List Char} : trimFront s = [] ↔ ∀ c ∈ s, isBlank c = true := by
  induction s with
  | nil => simp [trimFront]
  | cons c s ih => by_cases h : isBlank c = true <;> simp_all [trimFront]

theorem trimBack_eq_nil_iff {s : List Char} : trimBack s = [] ↔ ∀ c ∈ s, isBlank c = true := by
  have h := trimFront_eq_nil_iff (s := s.reverse)
  simp only [List.mem_reverse] at h
  rw [← h, trimBack, trimFront, List.reverse_eq_nil_iff]

theorem trimFront_append_of_blank {a s : List Char} (h : ∀ c ∈ a, isBlank c = true) :
    trimFront (a ++ s) = trimFront s := by
  simp only [trimFront]
  induction a with
  | nil => rfl
  | cons c a ih =>
    have hc := h c (by simp)
    simp [hc, ih fun d hd => h d (by simp [hd])]

theorem trimBack_append_of_blank {s b : List Char} (h : ∀ c ∈ b, isBlank c = true) :
    trimBack (s ++ b) = trimBack s := by
  have := trimFront_append_of_blank (a := b.reverse) (s := s.reverse) (by simpa using h)
  simpa [trimBack, trimFront] using this

theorem trim_eq_nil_iff {s : List Char} : trim s = [] ↔ ∀ c ∈ s, isBlank c = true := by
  constructor
  · intro h c hc
    rw [trim, trimBack_eq_nil_iff] at h
    have hs : s = s.takeWhile isBlank ++ s.dropWhile isBlank := List.takeWhile_append_dropWhile.symm
    rw [hs, List.mem_append] at hc
    rcases hc with hc | hc
    · exact List.all_eq_true.1 List.all_takeWhile c hc
    · exact h c hc
  · intro h
    rw [trim, trimFront_eq_nil_iff.2 h]
    rfl

end MasterPackage.Text

/-!
# Letter case

Tags, schemes and file extensions are compared without regard to the case of
the ASCII letters; every other character has to agree exactly.
-/

namespace MasterPackage.Text

/-- Equality up to the case of the ASCII letters. -/
def sameFolded (a b : List Char) : Bool := a.map Char.toLower == b.map Char.toLower

theorem sameFolded_iff {a b : List Char} :
    sameFolded a b = true ↔ a.map Char.toLower = b.map Char.toLower := by
  simp [sameFolded]

theorem sameFolded_refl (a : List Char) : sameFolded a a = true := by simp [sameFolded]

theorem sameFolded_comm (a b : List Char) : sameFolded a b = sameFolded b a := by
  rw [Bool.eq_iff_iff, sameFolded_iff, sameFolded_iff, eq_comm]

end MasterPackage.Text

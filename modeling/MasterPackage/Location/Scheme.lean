import MasterPackage.Text.Case

/-!
# Schemes

A location is a path or a URL, and it is a URL when it starts with a scheme and a
colon.  A scheme has at least two characters, so that the drive letter of a path
such as `C:\media` is none; it starts with a letter and goes on with letters,
digits, plus, minus and point.
-/

namespace MasterPackage.Location

/-- The characters that may follow the first of a scheme. -/
def isSchemeChar (c : Char) : Bool := c.isAlphanum || c == '+' || c == '-' || c == '.'

/-- A letter, then at least one scheme character and no other. -/
def isScheme : List Char → Bool
  | c :: d :: s => c.isAlpha && (d :: s).all isSchemeChar
  | _ => false

namespace Chars

/-- The scheme of a location. -/
def scheme? (u : List Char) : Option (List Char) :=
  let s := u.takeWhile (· != ':')
  if s.length < u.length && isScheme s then some s else none

end Chars

/-- The scheme of a location, if it has one. -/
def scheme? (u : String) : Option String := (Chars.scheme? u.toList).map String.ofList

theorem isSchemeChar_of_isAlpha {c : Char} (h : c.isAlpha = true) : isSchemeChar c = true := by
  simp [isSchemeChar, Char.isAlphanum, h]

theorem not_isSchemeChar_colon : isSchemeChar ':' = false := by decide

theorem all_isSchemeChar {s : List Char} (h : isScheme s = true) :
    ∀ c ∈ s, isSchemeChar c = true := by
  match s, h with
  | c :: d :: s, h =>
    simp only [isScheme, Bool.and_eq_true, List.all_eq_true] at h
    intro x hx
    rcases List.mem_cons.1 hx with rfl | hx
    · exact isSchemeChar_of_isAlpha h.1
    · exact h.2 x hx

theorem takeWhile_colon_append {s r : List Char} (h : ∀ c ∈ s, c ≠ ':') :
    (s ++ ':' :: r).takeWhile (· != ':') = s := by
  induction s with
  | nil => simp
  | cons c s ih =>
    have hc : c ≠ ':' := h c (by simp)
    simp [hc, ih fun d hd => h d (by simp [hd])]

theorem Chars.scheme?_eq_some_iff {u s : List Char} :
    Chars.scheme? u = some s ↔ isScheme s = true ∧ ∃ rest, u = s ++ ':' :: rest := by
  constructor
  · intro h
    simp only [Chars.scheme?, Option.ite_none_right_eq_some, Bool.and_eq_true, decide_eq_true_eq,
      Option.some.injEq] at h
    obtain ⟨⟨hlen, hs⟩, rfl⟩ := h
    refine ⟨hs, ?_⟩
    have hu : u.takeWhile (· != ':') ++ u.dropWhile (· != ':') = u :=
      List.takeWhile_append_dropWhile
    cases hd : u.dropWhile (· != ':') with
    | nil =>
      rw [hd, List.append_nil] at hu
      rw [hu] at hlen
      omega
    | cons c rest =>
      have hc : (c != ':') = false := by
        have := List.head?_dropWhile_not (· != ':') u
        simpa [hd] using this
      have hc : c = ':' := by simpa using hc
      exact ⟨rest, by rw [hd, hc] at hu; exact hu.symm⟩
  · rintro ⟨hs, rest, rfl⟩
    have hcol : ∀ c ∈ s, c ≠ ':' := by
      rintro c hc rfl
      have := all_isSchemeChar hs ':' hc
      simp [not_isSchemeChar_colon] at this
    simp [Chars.scheme?, takeWhile_colon_append hcol, hs]

end MasterPackage.Location

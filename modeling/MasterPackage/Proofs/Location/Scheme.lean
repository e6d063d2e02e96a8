import MasterPackage.Proofs.Location.Absoluteness
import MasterPackage.Proofs.Text.Case
import MasterPackage.Text.Utf8

/-!
# Schemes by their grammar

A location has the scheme that stands in front of its first colon, if that is the name of one.
What is put behind a location leaves its scheme as it is, and gives it one only if the location is
the beginning of the name.  No path from the root or on a drive is the beginning of a name, and no
path with a separator in front of any colon.
-/

namespace MasterPackage.Text

/-- A letter of ASCII. -/
def IsLetter (c : Char) : Prop := ('A' ≤ c ∧ c ≤ 'Z') ∨ ('a' ≤ c ∧ c ≤ 'z')

/-- A digit of ASCII. -/
def IsDigit (c : Char) : Prop := '0' ≤ c ∧ c ≤ '9'

instance (c : Char) : Decidable (IsLetter c) :=
  inferInstanceAs (Decidable (('A' ≤ c ∧ c ≤ 'Z') ∨ ('a' ≤ c ∧ c ≤ 'z')))

theorem isAlpha_iff_isLetter {c : Char} : c.isAlpha = true ↔ IsLetter c := isAlpha_iff

theorem isDigit_iff {c : Char} : c.isDigit = true ↔ IsDigit c :=
  Bool.and_eq_true_iff.trans (and_congr decide_eq_true_iff decide_eq_true_iff)

end MasterPackage.Text

namespace MasterPackage.Location

open Text (IsLetter IsDigit)

/-- The name of a scheme: two characters or more, of which the first is a letter and all are
letters, digits, plus, minus or point. -/
structure IsSchemeName (s : List Char) : Prop where
  two_le_length : 2 ≤ s.length
  letter_first : ∃ c t, s = c :: t ∧ IsLetter c
  chars : ∀ c ∈ s, IsLetter c ∨ IsDigit c ∨ c = '+' ∨ c = '-' ∨ c = '.'

/-- A location begins with a separator, with a point or on a drive. -/
inductive BeginsAsPath : List Char → Prop
  | separator {sep : Char} {p : List Char} : isSeparator sep = true → BeginsAsPath (sep :: p)
  | point {p : List Char} : BeginsAsPath ('.' :: p)
  | drive {c : Char} {p : List Char} : IsLetter c → BeginsAsPath (c :: ':' :: p)

/-- A location has a separator, and no colon in front of that. -/
def HasSeparatorFirst (u : List Char) : Prop :=
  ∃ before sep after, u = before ++ sep :: after ∧ isSeparator sep = true ∧ ':' ∉ before

/-! ## Names -/

theorem isSchemeChar_iff {c : Char} :
    isSchemeChar c = true ↔ IsLetter c ∨ IsDigit c ∨ c = '+' ∨ c = '-' ∨ c = '.' := by
  rw [isSchemeChar, Char.isAlphanum]
  simp only [Bool.or_eq_true, Text.isAlpha_iff_isLetter, Text.isDigit_iff, beq_iff_eq, or_assoc]

theorem isScheme_iff {s : List Char} : isScheme s = true ↔ IsSchemeName s := by
  constructor
  · intro hs
    have hchars : ∀ c ∈ s, IsLetter c ∨ IsDigit c ∨ c = '+' ∨ c = '-' ∨ c = '.' :=
      fun c hc => isSchemeChar_iff.1 (all_isSchemeChar hs c hc)
    match s, hs with
    | c :: d :: t, hs =>
      rw [isScheme, Bool.and_eq_true] at hs
      exact ⟨by simp, ⟨c, d :: t, rfl, Text.isAlpha_iff_isLetter.1 hs.1⟩, hchars⟩
  · intro hs
    obtain ⟨c, t, rfl, hletter⟩ := hs.letter_first
    cases t with
    | nil => exact absurd hs.two_le_length (by simp)
    | cons d t =>
      rw [isScheme, Bool.and_eq_true, List.all_eq_true]
      refine ⟨Text.isAlpha_iff_isLetter.2 hletter, fun x hx => ?_⟩
      exact isSchemeChar_iff.2 (hs.chars x (List.mem_cons_of_mem c hx))

theorem not_colon_mem_of_isScheme {s : List Char} (hs : isScheme s = true) : ':' ∉ s := by
  intro hmem
  have hcolon := all_isSchemeChar hs ':' hmem
  rw [not_isSchemeChar_colon] at hcolon
  cases hcolon

theorem utf8Size_of_isSchemeChar {c : Char} (hc : isSchemeChar c = true) : c.utf8Size = 1 := by
  have hascii {d : Char} (hle : c ≤ d) (hd : d.utf8Size = 1) : c.utf8Size = 1 := by
    rw [Char.utf8Size_eq_one_iff] at hd ⊢
    exact Nat.le_trans hle hd
  rcases isSchemeChar_iff.1 hc with (hupper | hlower) | hdigit | rfl | rfl | rfl
  · exact hascii hupper.2 (by decide)
  · exact hascii hlower.2 (by decide)
  · exact hascii hdigit.2 (by decide)
  · decide
  · decide
  · decide

/-- The name of a scheme takes a byte for each character. -/
theorem width_of_isScheme {s : List Char} (hs : isScheme s = true) :
    Text.Utf8.width s = s.length :=
  Text.Utf8.width_eq_length fun c hc => utf8Size_of_isSchemeChar (all_isSchemeChar hs c hc)

/-! ## What is put behind a location -/

namespace Chars

variable {u v s : List Char}

/-- A location keeps its scheme, whatever is put behind it, and it gets one only if it is the
beginning of the name and what is put behind it goes on with the rest of the name and a colon. -/
theorem scheme?_append_eq_some_iff :
    scheme? (u ++ v) = some s ↔
      scheme? u = some s ∨
        isScheme s = true ∧ ∃ more rest, s = u ++ more ∧ v = more ++ ':' :: rest := by
  constructor
  · intro h
    obtain ⟨hs, rest, hsplit⟩ := scheme?_eq_some_iff.1 h
    -- either the name ends behind the location, or within it, or right at its end
    rcases List.append_eq_append_iff.1 hsplit with ⟨more, hname, hv⟩ | ⟨more, hu, hrest⟩
    · exact .inr ⟨hs, more, rest, hname, hv⟩
    · cases more with
      | nil =>
        rw [List.append_nil] at hu
        exact .inr ⟨hs, [], rest, by rw [hu, List.append_nil], hrest.symm⟩
      | cons c more =>
        obtain ⟨rfl, -⟩ := List.cons.inj hrest
        exact .inl (scheme?_eq_some_iff.2 ⟨hs, more, hu⟩)
  · intro h
    rcases h with hscheme | ⟨hs, more, rest, rfl, rfl⟩
    · exact scheme?_append hscheme v
    · exact scheme?_eq_some_iff.2 ⟨hs, rest, by rw [List.append_assoc]⟩

/-- What follows a colon has no part in the scheme. -/
theorem scheme?_append_colon (front rest : List Char) :
    scheme? (front ++ ':' :: rest) = scheme? (front ++ [':']) := by
  apply Option.ext
  intro s
  rw [List.append_cons, scheme?_append_eq_some_iff]
  apply or_iff_left
  intro hname
  -- a location with a colon is not the beginning of a name
  obtain ⟨hs, more, -, rfl, -⟩ := hname
  exact not_colon_mem_of_isScheme hs (by simp)

/-- A location with a scheme begins with a letter, and no colon comes right behind that. -/
theorem exists_of_scheme? (hscheme : scheme? u = some s) :
    ∃ c d p, u = c :: d :: p ∧ c.isAlpha = true ∧ d ≠ ':' := by
  obtain ⟨hs, rest, rfl⟩ := scheme?_eq_some_iff.1 hscheme
  match s, hs with
  | c :: d :: t, hs =>
    refine ⟨c, d, t ++ ':' :: rest, rfl, (Bool.and_eq_true_iff.1 hs).1, ?_⟩
    intro hcolon
    subst hcolon
    exact not_colon_mem_of_isScheme hs (by simp)

/-- What begins with a separator, with a point or on a drive has no scheme. -/
theorem scheme?_of_beginsAsPath (hpath : BeginsAsPath u) : scheme? u = none := by
  rw [Option.eq_none_iff_forall_ne_some]
  intro s hscheme
  obtain ⟨c, d, p, rfl, hletter, hcolon⟩ := exists_of_scheme? hscheme
  cases hpath with
  | separator hsep =>
    rw [not_isAlpha_of_isSeparator hsep] at hletter
    cases hletter
  | point => exact absurd hletter (by decide)
  | drive => exact hcolon rfl

/-- A path with a separator in front of any colon gets no scheme by what is put behind it. -/
theorem scheme?_of_separatorFirst (h : HasSeparatorFirst u) (v : List Char) :
    scheme? (u ++ v) = none := by
  obtain ⟨before, sep, after, rfl, hsep, hcolon⟩ := h
  rw [List.append_assoc, List.cons_append, scheme?_append_separator hsep,
    Option.eq_none_iff_forall_ne_some]
  intro s hscheme
  obtain ⟨-, rest, rfl⟩ := scheme?_eq_some_iff.1 hscheme
  exact hcolon (by simp)

end Chars

/-! ## Every location -/

section

variable {u s : String}

theorem scheme?_eq_some_iff_chars :
    scheme? u = some s ↔ Chars.scheme? u.toList = some s.toList := by
  rw [scheme?, Option.map_eq_some_iff]
  constructor
  · intro hmap
    obtain ⟨t, ht, rfl⟩ := hmap
    rw [ht, String.toList_ofList]
  · intro hscheme
    exact ⟨s.toList, hscheme, String.ofList_toList⟩

theorem toList_append_colon (front rest : String) :
    (front ++ ":" ++ rest).toList = front.toList ++ ':' :: rest.toList := by
  rw [String.toList_append, String.toList_append, List.append_assoc]
  rfl

/-- A text goes on with a colon behind `front` if its characters do. -/
theorem exists_eq_append_colon_iff {front : String} :
    (∃ rest, u = front ++ ":" ++ rest) ↔ ∃ rest, u.toList = front.toList ++ ':' :: rest := by
  constructor
  · intro htext
    obtain ⟨rest, rfl⟩ := htext
    exact ⟨rest.toList, toList_append_colon front rest⟩
  · intro hchars
    obtain ⟨rest, hu⟩ := hchars
    refine ⟨String.ofList rest, String.toList_inj.1 ?_⟩
    rw [toList_append_colon, String.toList_ofList, hu]

theorem scheme?_eq_some_iff_name :
    scheme? u = some s ↔ IsSchemeName s.toList ∧ ∃ rest, u = s ++ ":" ++ rest := by
  rw [scheme?_eq_some_iff_chars, Chars.scheme?_eq_some_iff, isScheme_iff,
    exists_eq_append_colon_iff]

theorem scheme?_append_eq_some_iff_name {v : String} :
    scheme? (u ++ v) = some s ↔
      scheme? u = some s ∨
        IsSchemeName s.toList ∧ ∃ more rest, s = u ++ more ∧ v = more ++ ":" ++ rest := by
  rw [scheme?_eq_some_iff_chars, scheme?_eq_some_iff_chars, String.toList_append,
    Chars.scheme?_append_eq_some_iff, isScheme_iff]
  apply or_congr_right
  apply and_congr_right'
  constructor
  · intro hchars
    obtain ⟨more, rest, hs, hv⟩ := hchars
    refine ⟨String.ofList more, String.ofList rest, String.toList_inj.1 ?_, String.toList_inj.1 ?_⟩
    · rw [String.toList_append, String.toList_ofList, hs]
    · rw [toList_append_colon, String.toList_ofList, String.toList_ofList, hv]
  · intro htext
    obtain ⟨more, rest, rfl, rfl⟩ := htext
    exact ⟨more.toList, rest.toList, String.toList_append, toList_append_colon more rest⟩

end

/-- The scheme of a location is what stands in front of its first colon, if that is the name of a
scheme; it takes a byte for each character.  What stands behind a colon has no part in it.  A
location that begins with a separator, with a point or on a drive has no scheme, and one that has a
separator in front of any colon has none whatever is put behind it.  Whatever is put behind any
location, it keeps its scheme, and it gets one only if it is the beginning of the name, and what is
put behind it goes on with the rest of the name and a colon. -/
theorem scheme_by_grammar (u : String) :
    (∀ s, scheme? u = some s ↔ IsSchemeName s.toList ∧ ∃ rest, u = s ++ ":" ++ rest) ∧
    (∀ s, scheme? u = some s → Text.Utf8.width s.toList = s.length) ∧
    (∀ front rest, u = front ++ ":" ++ rest →
      ∀ changed, scheme? (front ++ ":" ++ changed) = scheme? u) ∧
    (BeginsAsPath u.toList → scheme? u = none) ∧
    (HasSeparatorFirst u.toList → ∀ v, scheme? (u ++ v) = none) ∧
    ∀ v s, scheme? (u ++ v) = some s ↔
      scheme? u = some s ∨
        IsSchemeName s.toList ∧ ∃ more rest, s = u ++ more ∧ v = more ++ ":" ++ rest := by
  refine ⟨fun s => scheme?_eq_some_iff_name, ?_, ?_, ?_, ?_,
    fun v s => scheme?_append_eq_some_iff_name⟩
  · intro s hscheme
    have hname := (scheme?_eq_some_iff_name.1 hscheme).1
    exact width_of_isScheme (isScheme_iff.2 hname)
  · intro front rest hu changed
    subst hu
    rw [scheme?, toList_append_colon, Chars.scheme?_append_colon, scheme?, toList_append_colon,
      Chars.scheme?_append_colon front.toList rest.toList]
  · intro hpath
    rw [scheme?, Chars.scheme?_of_beginsAsPath hpath, Option.map_none]
  · intro hfirst v
    rw [scheme?, String.toList_append, Chars.scheme?_of_separatorFirst hfirst, Option.map_none]

/-- A location with several colons, one of them behind a letter; a drive with a URL behind it; and a
name that goes on as a URL does, with a segment in front of it and without. -/
theorem scheme_among_colons :
    scheme? "s3+tls:C:/ü:x" = some "s3+tls" ∧ Text.Utf8.width "s3+tls".toList = "s3+tls".length ∧
      scheme? ("s3+tls" ++ ":" ++ "\\é://") = scheme? "s3+tls:C:/ü:x" ∧
      BeginsAsPath "C:https://é".toList ∧ scheme? "C:https://é" = none ∧
      HasSeparatorFirst "ü/s3".toList ∧ scheme? ("ü/s3" ++ "+tls://é") = none ∧
      scheme? ("s3" ++ "+tls://é") = some "s3+tls" := by
  have hname : IsSchemeName "s3+tls".toList := isScheme_iff.1 (by decide)
  have hdrive : BeginsAsPath "C:https://é".toList := .drive (.inl (by decide))
  have hfirst : HasSeparatorFirst "ü/s3".toList :=
    ⟨['ü'], '/', ['s', '3'], by decide, by decide, by decide⟩
  obtain ⟨hgrammar, hbytes, hstable, -⟩ := scheme_by_grammar "s3+tls:C:/ü:x"
  obtain ⟨-, -, -, hpath, -⟩ := scheme_by_grammar "C:https://é"
  obtain ⟨-, -, -, -, hnever, -⟩ := scheme_by_grammar "ü/s3"
  obtain ⟨-, -, -, -, -, hbehind⟩ := scheme_by_grammar "s3"
  have hscheme : scheme? "s3+tls:C:/ü:x" = some "s3+tls" :=
    (hgrammar "s3+tls").2 ⟨hname, "C:/ü:x", by decide⟩
  refine ⟨hscheme, hbytes "s3+tls" hscheme, ?_, hdrive, hpath hdrive, hfirst, ?_, ?_⟩
  · exact hstable "s3+tls" "C:/ü:x" (by decide) "\\é://"
  · exact hnever hfirst "+tls://é"
  · exact (hbehind "+tls://é" "s3+tls").2 (.inr ⟨hname, "+tls", "//é", by decide, by decide⟩)

end MasterPackage.Location

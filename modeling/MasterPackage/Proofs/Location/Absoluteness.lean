import MasterPackage.Proofs.Location.Joining

/-!
# Absolute locations

A location stands for itself if it begins at a root, on a drive or with a scheme.  A path takes
that over from the directory that it is put behind, whatever is trimmed off the directory and
whatever the path says: the separators at the end of a directory stand behind the letter and
the colon of its drive, and no colon behind a separator ends a scheme.  A drive letter with its
colon alone is no absolute directory, and yet what is put behind it is on the drive.
-/

namespace MasterPackage.Location

namespace Chars

section

variable {base p : List Char} {sep : Char}

/-! ## Behind a directory -/

theorem not_isAlpha_of_isSeparator {c : Char} (hc : isSeparator c = true) : c.isAlpha = false := by
  rw [isSeparator, Bool.or_eq_true, beq_iff_eq, beq_iff_eq] at hc
  rcases hc with rfl | rfl <;> decide

theorem not_colon_of_isSeparator {c : Char} (hc : isSeparator c = true) : (c == ':') = false := by
  rw [isSeparator, Bool.or_eq_true, beq_iff_eq, beq_iff_eq] at hc
  rcases hc with rfl | rfl <;> decide

theorem startsAtRoot_join (hbase : base ≠ []) (hsep : isSeparator sep = true) (r : List Char) :
    startsAtRoot (trimSeparators base ++ sep :: r) = startsAtRoot base := by
  obtain ⟨seps, hparts, hseps⟩ := exists_separators base
  cases htrim : trimSeparators base with
  | nil =>
    rw [htrim, List.nil_append] at hparts
    cases base with
    | nil => exact absurd rfl hbase
    | cons c base =>
      have hc : isSeparator c = true := hseps c (hparts ▸ List.mem_cons_self)
      exact hsep.trans hc.symm
  | cons c t =>
    rw [hparts, htrim]
    rfl

/-- The letter of a drive is no separator, and neither is its colon. -/
theorem not_drive_of_separator (hsep : isSeparator sep = true) (c : Char) (q : List Char) :
    (onDrive (sep :: q) || isDriveName (sep :: q)) = false ∧
      (onDrive (c :: sep :: q) || isDriveName (c :: sep :: q)) = false := by
  have hletter : sep.isAlpha = false := not_isAlpha_of_isSeparator hsep
  have hcolon : (sep == ':') = false := not_colon_of_isSeparator hsep
  constructor
  · match q with
    | [] => rfl
    | [d] => simp [onDrive, isDriveName, hletter]
    | d :: e :: q => simp [onDrive, isDriveName, hletter]
  · match q with
    | [] => simp [onDrive, isDriveName, hcolon]
    | e :: q => simp [onDrive, isDriveName, hcolon]

/-- Whether a path is on a drive shows in its first three characters, and of these the third may
be any separator. -/
theorem onDrive_append {seps : List Char} (hseps : ∀ c ∈ seps, isSeparator c = true)
    (hsep : isSeparator sep = true) (t r : List Char) :
    onDrive (t ++ sep :: r) = (onDrive (t ++ seps) || isDriveName (t ++ seps)) := by
  match t with
  | [] =>
    rw [List.nil_append, (Bool.or_eq_false_iff.1 (not_drive_of_separator hsep sep r).1).1]
    cases seps with
    | nil => rfl
    | cons x seps =>
      have hx : isSeparator x = true := hseps x (List.mem_cons_self ..)
      exact (not_drive_of_separator hx x seps).1.symm
  | [c] =>
    rw [List.singleton_append, (Bool.or_eq_false_iff.1 (not_drive_of_separator hsep c r).2).1]
    cases seps with
    | nil => rfl
    | cons x seps =>
      have hx : isSeparator x = true := hseps x (List.mem_cons_self ..)
      exact (not_drive_of_separator hx c seps).2.symm
  | [c, d] =>
    cases seps with
    | nil => simp [onDrive, isDriveName, hsep]
    | cons x seps =>
      have hx : isSeparator x = true := hseps x (List.mem_cons_self ..)
      simp [onDrive, isDriveName, hsep, hx]
  | c :: d :: e :: t => simp [onDrive, isDriveName]

theorem onDrive_join (hsep : isSeparator sep = true) (r : List Char) :
    onDrive (trimSeparators base ++ sep :: r) = (onDrive base || isDriveName base) := by
  obtain ⟨seps, hparts, hseps⟩ := exists_separators base
  rw [onDrive_append hseps hsep, ← hparts]

theorem scheme?_join (hsep : isSeparator sep = true) (r : List Char) :
    scheme? (trimSeparators base ++ sep :: r) = scheme? base := by
  rw [scheme?_append_separator hsep, scheme?_trimSeparators]

theorem isAbsolute_join (hbase : base ≠ []) (hsep : isSeparator sep = true) (r : List Char) :
    isAbsolute (trimSeparators base ++ sep :: r) = (isAbsolute base || isDriveName base) := by
  rw [isAbsolute, startsAtRoot_join hbase hsep, onDrive_join hsep, scheme?_join hsep, isAbsolute]
  ac_rfl

theorem isAbsolute_of_scheme {u s : List Char} (hscheme : scheme? u = some s) :
    isAbsolute u = true := by
  rw [isAbsolute, hscheme, Option.isSome_some, Bool.or_true]

/-! ## Where a path leads -/

/-- What a path that is not absolute takes over from its directory. -/
theorem resolve_takes_over (hbase : base ≠ []) (relative : isAbsolute p = false) :
    isAbsolute (resolve base p) = (isAbsolute base || isDriveName base) ∧
      scheme? (resolve base p) = scheme? base := by
  rw [resolve_of_relative hbase relative]
  split
  · next hroot =>
    obtain ⟨s, seps, hs, -, hd⟩ := isRootUrl_iff.1 hroot
    have hscheme : scheme? base = some s := scheme?_eq_some_iff.2 ⟨hs, '/' :: '/' :: seps, hd⟩
    have happend := scheme?_append hscheme (dropHere p)
    rw [isAbsolute_of_scheme happend, isAbsolute_of_scheme hscheme, happend, hscheme]
    exact ⟨rfl, rfl⟩
  · exact ⟨isAbsolute_join hbase (isSeparator_joiner base) _,
      scheme?_join (isSeparator_joiner base) _⟩

theorem isAbsolute_resolve (base p : List Char) :
    isAbsolute (resolve base p) = (isAbsolute p || isAbsolute base || isDriveName base) := by
  cases habsolute : isAbsolute p with
  | true => rw [resolve_of_isAbsolute habsolute, habsolute, Bool.true_or, Bool.true_or]
  | false =>
    rw [Bool.false_or]
    by_cases hbase : base = []
    · -- No directory stands for the current one, which is no more absolute.
      rw [hbase, resolve_nil]
      exact (resolve_takes_over (List.cons_ne_nil _ _) habsolute).1
    · exact (resolve_takes_over hbase habsolute).1

theorem scheme?_resolve (base p : List Char) :
    scheme? (resolve base p) = if isAbsolute p then scheme? p else scheme? base := by
  cases habsolute : isAbsolute p with
  | true => rw [resolve_of_isAbsolute habsolute, if_pos rfl]
  | false =>
    rw [if_neg Bool.false_ne_true]
    by_cases hbase : base = []
    · rw [hbase, resolve_nil]
      exact (resolve_takes_over (List.cons_ne_nil _ _) habsolute).2
    · exact (resolve_takes_over hbase habsolute).2

end

end Chars

/-! ## Every directory and path -/

/-- The location of a path is absolute exactly if the path is, or its directory, or if the
directory is a drive letter with its colon and nothing else.  It has the scheme of a path that is
absolute, and otherwise that of the directory.  Behind an absolute directory it stands for itself,
so that nothing changes when it is resolved once more, whatever the directory is then. -/
theorem absolute_resolution (base p : String) :
    (isAbsolute (resolve base p) = true ↔
      isAbsolute p = true ∨ isAbsolute base = true ∨ Chars.isDriveName base.toList = true) ∧
    scheme? (resolve base p) = (if isAbsolute p then scheme? p else scheme? base) ∧
    (isAbsolute base = true → ∀ other, resolve other (resolve base p) = resolve base p) := by
  have habsolute : isAbsolute (resolve base p) =
      (isAbsolute p || isAbsolute base || Chars.isDriveName base.toList) := by
    rw [isAbsolute, toList_resolve, Chars.isAbsolute_resolve]
    rfl
  refine ⟨?_, ?_, ?_⟩
  · rw [habsolute, Bool.or_eq_true, Bool.or_eq_true, or_assoc]
  · rw [scheme?, toList_resolve, Chars.scheme?_resolve, isAbsolute, apply_ite (Option.map _)]
    rfl
  · intro hbase other
    have hplace : Chars.isAbsolute (resolve base p).toList = true := by
      change isAbsolute (resolve base p) = true
      rw [habsolute, hbase, Bool.or_true, Bool.true_or]
    rw [resolve, Chars.resolve_of_isAbsolute hplace, String.ofList_toList]

/-- A path with the looks of a URL behind the segment for its directory, on a drive. -/
theorem absolute_resolution_on_drive :
    isAbsolute "C:\\" = true ∧ isAbsolute (resolve "C:\\" ".\\http://x") = true ∧
      scheme? (resolve "C:\\" ".\\http://x") = none ∧
      resolve "https://h/p" (resolve "C:\\" ".\\http://x") = resolve "C:\\" ".\\http://x" := by
  have hdrive : isAbsolute "C:\\" = true := by decide
  obtain ⟨habsolute, hscheme, hagain⟩ := absolute_resolution "C:\\" ".\\http://x"
  refine ⟨hdrive, habsolute.2 (.inr (.inl hdrive)), ?_, hagain hdrive "https://h/p"⟩
  rw [hscheme]
  decide

end MasterPackage.Location

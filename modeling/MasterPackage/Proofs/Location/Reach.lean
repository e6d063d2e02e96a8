import MasterPackage.Proofs.Location.FileUrl
import MasterPackage.Transport.Disk

/-!
# Locations within reach

A machine reaches a location that is a path, and a URL of the scheme of files that names no host,
an empty one or this machine.  The path it opens there is an end of the location, letter for
letter.  Every other location is out of reach, and no file is looked at for it.
-/

namespace MasterPackage.Location

/-- A host goes up to the first slash of what stands behind the slashes in front of it: `path` is
the rest. -/
structure IsHostBefore (host path : List Char) : Prop where
  no_slash : '/' ∉ host
  path_eq : path = [] ∨ path.head? = some '/'

/-- A location leads to a path on this machine. -/
inductive Leads : List Char → List Char → Prop
  | path {u : List Char} : Chars.scheme? u = none → Leads u u
  | bare {s path : List Char} : isScheme s = true → Text.sameFolded s fileScheme = true →
    Chars.startsAuthority path = false → Leads (s ++ ':' :: path) path
  | hosted {s host path : List Char} : isScheme s = true → Text.sameFolded s fileScheme = true →
    host = [] ∨ Text.sameFolded host localHost = true → IsHostBefore host path →
    Leads (s ++ ':' :: '/' :: '/' :: (host ++ path)) path

/-- A location is out of reach of this machine, and this is what about it is not supported: a
scheme other than that of files, or a host other than this machine. -/
inductive OutOfReach : List Char → List Char → Prop
  | scheme {s rest : List Char} : isScheme s = true → Text.sameFolded s fileScheme = false →
    OutOfReach (s ++ ':' :: rest) s
  | host {s host path : List Char} : isScheme s = true → Text.sameFolded s fileScheme = true →
    host ≠ [] → Text.sameFolded host localHost = false → IsHostBefore host path →
    OutOfReach (s ++ ':' :: '/' :: '/' :: (host ++ path)) (fileScheme ++ ':' :: '/' :: '/' :: host)

/-! ## Hosts -/

theorem exists_host (rest : List Char) :
    ∃ host path, rest = host ++ path ∧ IsHostBefore host path := by
  refine ⟨rest.takeWhile (· != '/'), rest.dropWhile (· != '/'),
    List.takeWhile_append_dropWhile.symm, ?_, ?_⟩
  · intro hslash
    have hkept := List.all_eq_true.1 List.all_takeWhile _ hslash
    exact absurd hkept (by decide)
  · cases hpath : rest.dropWhile (· != '/') with
    | nil => exact .inl rfl
    | cons c path =>
      have hfirst := List.head?_dropWhile_not (· != '/') rest
      rw [hpath] at hfirst
      exact .inr (by simpa using hfirst)

theorem IsHostBefore.takeWhile_append {host path : List Char} (h : IsHostBefore host path) :
    (host ++ path).takeWhile (· != '/') = host := by
  have hkeep : ∀ c ∈ host, (c != '/') = true := by
    intro c hc
    rw [bne_iff_ne]
    intro hslash
    exact h.no_slash (hslash ▸ hc)
  rw [List.takeWhile_append_of_pos hkeep]
  rcases h.path_eq with hnil | hslash
  · rw [hnil, List.takeWhile_nil, List.append_nil]
  · obtain ⟨more, rfl⟩ := List.head?_eq_some_iff.1 hslash
    rw [List.takeWhile_cons_of_neg (by decide), List.append_nil]

/-- A path from the root stands behind any host that is empty or this machine. -/
theorem isHostBefore_root {host path : List Char}
    (hhost : host = [] ∨ Text.sameFolded host localHost = true) (hpath : path.head? = some '/') :
    IsHostBefore host path := by
  refine ⟨fun hslash => ?_, .inr hpath⟩
  exact absurd (Chars.plain_of_mem_host hhost hslash).1 (by decide)

/-! ## The scheme of files -/

/-- The name of the scheme of files is that of a scheme, in any letter case. -/
theorem isScheme_of_file {s : List Char} (h : Text.sameFolded s fileScheme = true) :
    isScheme s = true := by
  have hletter {c : Char} (hc : c ∈ s) : c.isAlpha = true :=
    Text.isAlpha_of_sameFolded h (by decide) hc
  have hlength := congrArg List.length (Text.sameFolded_iff.1 h)
  rw [List.length_map, List.length_map] at hlength
  match s, hlength with
  | c :: d :: s, _ =>
    rw [isScheme, Bool.and_eq_true, List.all_eq_true]
    refine ⟨hletter (by simp), fun x hx => ?_⟩
    exact isSchemeChar_of_isAlpha (hletter (List.mem_cons_of_mem c hx))

namespace Chars

/-! ## Every location -/

variable {u p e : List Char}

theorem machinePath_hosted {s host path : List Char} (hs : isScheme s = true)
    (hfile : Text.sameFolded s fileScheme = true) (hhost : IsHostBefore host path) :
    machinePath (s ++ ':' :: '/' :: '/' :: (host ++ path)) =
      if host = [] ∨ Text.sameFolded host localHost = true then .ok path
      else .error (fileScheme ++ ':' :: '/' :: '/' :: host) := by
  rw [machinePath_file hs hfile]
  simp only [hhost.takeWhile_append, List.drop_left]

/-- A location within reach is opened at the path that it leads to. -/
theorem machinePath_of_leads (h : Leads u p) : machinePath u = .ok p := by
  cases h with
  | path hnone => rw [machinePath, hnone]
  | bare hs hfile hbare =>
    have hfront := machinePath_front (.bare hs hfile hbare)
    rwa [List.append_assoc, List.singleton_append] at hfront
  | hosted hs hfile hlocal hhost => rw [machinePath_hosted hs hfile hhost, if_pos hlocal]

theorem machinePath_of_outOfReach (h : OutOfReach u e) : machinePath u = .error e := by
  cases h with
  | @scheme s rest hs hother =>
    have hscheme : scheme? (e ++ ':' :: rest) = some e := scheme?_eq_some_iff.2 ⟨hs, rest, rfl⟩
    unfold machinePath
    simp only [hscheme, hother, Bool.false_eq_true, ↓reduceIte]
  | host hs hfile hne hforeign hhost =>
    rw [machinePath_hosted hs hfile hhost, if_neg]
    rw [hforeign]
    exact fun h => h.elim hne Bool.false_ne_true

/-- Every location is within reach or out of it. -/
theorem leads_or_outOfReach (u : List Char) : (∃ p, Leads u p) ∨ ∃ e, OutOfReach u e := by
  cases hscheme : scheme? u with
  | none => exact .inl ⟨u, .path hscheme⟩
  | some s =>
    obtain ⟨hs, rest, rfl⟩ := scheme?_eq_some_iff.1 hscheme
    cases hfile : Text.sameFolded s fileScheme with
    | false => exact .inr ⟨s, .scheme hs hfile⟩
    | true =>
      cases hslashes : startsAuthority rest with
      | false => exact .inl ⟨rest, .bare hs hfile hslashes⟩
      | true =>
        obtain ⟨behind, rfl⟩ := startsAuthority_iff.1 hslashes
        obtain ⟨host, path, rfl, hhost⟩ := exists_host behind
        by_cases hlocal : host = [] ∨ Text.sameFolded host localHost = true
        · exact .inl ⟨path, .hosted hs hfile hlocal hhost⟩
        · rw [not_or, Bool.not_eq_true] at hlocal
          exact .inr ⟨_, .host hs hfile hlocal.1 hlocal.2 hhost⟩

theorem machinePath_eq_ok_iff : machinePath u = .ok p ↔ Leads u p := by
  refine ⟨fun hok => ?_, machinePath_of_leads⟩
  rcases leads_or_outOfReach u with ⟨q, hleads⟩ | ⟨e, hout⟩
  · rw [machinePath_of_leads hleads] at hok
    cases hok
    exact hleads
  · rw [machinePath_of_outOfReach hout] at hok
    cases hok

theorem machinePath_eq_error_iff : machinePath u = .error e ↔ OutOfReach u e := by
  refine ⟨fun herror => ?_, machinePath_of_outOfReach⟩
  rcases leads_or_outOfReach u with ⟨p, hleads⟩ | ⟨e', hout⟩
  · rw [machinePath_of_leads hleads] at herror
    cases herror
  · rw [machinePath_of_outOfReach hout] at herror
    cases herror
    exact hout

/-- Nothing is changed about a path: it is an end of the location. -/
theorem suffix_of_leads (h : Leads u p) : p <:+ u := by
  cases h with
  | path => exact List.suffix_rfl
  | @bare s _ => exact ⟨s ++ [':'], by simp⟩
  | @hosted s host _ => exact ⟨s ++ ':' :: '/' :: '/' :: host, by simp⟩

/-- A path from the root is no URL. -/
theorem scheme?_of_root (hroot : p.head? = some '/') : scheme? p = none := by
  rw [Option.eq_none_iff_forall_ne_some]
  intro s hscheme
  obtain ⟨hs, rest, rfl⟩ := scheme?_eq_some_iff.1 hscheme
  match s, hs with
  | c :: d :: s, hs =>
    cases hroot
    cases hs

end Chars

/-! ## Locations as texts -/

theorem machinePath_eq_ok_iff {u p : String} :
    machinePath u = .ok p ↔ Leads u.toList p.toList := by
  rw [← Chars.machinePath_eq_ok_iff]
  unfold machinePath
  cases hpath : Chars.machinePath u.toList with
  | error e => simp
  | ok path =>
    simp only [Except.ok.injEq]
    constructor
    · intro h
      rw [← h, String.toList_ofList]
    · intro h
      rw [h, String.ofList_toList]

theorem machinePath_eq_error_iff {u e : String} :
    machinePath u = .error e ↔ OutOfReach u.toList e.toList := by
  rw [← Chars.machinePath_eq_error_iff]
  unfold machinePath
  cases hpath : Chars.machinePath u.toList with
  | ok path => simp
  | error reason =>
    simp only [Except.error.injEq]
    constructor
    · intro h
      rw [← h, String.toList_ofList]
    · intro h
      rw [h, String.ofList_toList]

/-- A path from the root is reached by itself, and by the URLs of files that name it. -/
theorem machinePath_spellings {p file host : String} (hroot : p.toList.head? = some '/')
    (hfile : Text.sameFolded file.toList fileScheme = true)
    (hhost : Text.sameFolded host.toList localHost = true) :
    machinePath p = .ok p ∧ machinePath (file ++ "://" ++ p) = .ok p ∧
      machinePath (file ++ "://" ++ host ++ p) = .ok p ∧
      (Chars.startsAuthority p.toList = false → machinePath (file ++ ":" ++ p) = .ok p) := by
  have hs := isScheme_of_file hfile
  have hlocal : host.toList = [] ∨ Text.sameFolded host.toList localHost = true := .inr hhost
  have hslashes : "://".toList = [':', '/', '/'] := rfl
  have hcolon : ":".toList = [':'] := rfl
  simp only [machinePath_eq_ok_iff, String.toList_append, hslashes, hcolon, List.append_assoc,
    List.cons_append, List.nil_append]
  refine ⟨.path (Chars.scheme?_of_root hroot), ?_, ?_, .bare hs hfile⟩
  · exact .hosted hs hfile (.inl rfl) (isHostBefore_root (.inl rfl) hroot)
  · exact .hosted hs hfile hlocal (isHostBefore_root hlocal hroot)

end MasterPackage.Location

namespace MasterPackage.Transport.Disk

variable {d d' : Disk} {url : String}

/-- Opening a location looks at the path that it leads to, and at no other. -/
theorem openFile_congr
    (same : ∀ p, Location.machinePath url = .ok p → d p = d' p) (stop : StopRule)
    (options : Options) : d.openFile stop url options = d'.openFile stop url options := by
  funext w
  unfold openFile
  cases hpath : Location.machinePath url with
  | error reason => rfl
  | ok path => simp only [same path hpath]

/-- What cannot be reached is not opened. -/
theorem openFile_of_unsupported {reason : String}
    (unsupported : Location.machinePath url = .error reason) {stop : StopRule} {w : Signals}
    (go : (stop.poll w).1 = false) (options : Options) :
    (d.openFile stop url options w).attempt =
      ⟨[.poll false], .error (.unsupported url reason)⟩ := by
  unfold openFile
  simp only [unsupported, go, Bool.false_eq_true, ↓reduceIte]

end MasterPackage.Transport.Disk

namespace MasterPackage.Location

/-- A path from the root is what is opened for it, and for a URL that puts the scheme of files in
front of it, alone or with an empty host or this machine, in any letter case.  Whatever the
location, a path is opened only if there is no scheme, or the scheme is that of files and there is
no host, an empty one or this machine; and the path is an end of the location.  For every other
location the answer is that it is not supported, with its scheme or its host, and all machines
answer the same, whatever files they have. -/
theorem machinePath_by_reach :
    (∀ p file host : String, p.toList.head? = some '/' →
      Text.sameFolded file.toList fileScheme = true →
      Text.sameFolded host.toList localHost = true →
      machinePath p = .ok p ∧ machinePath (file ++ "://" ++ p) = .ok p ∧
        machinePath (file ++ "://" ++ host ++ p) = .ok p ∧
        (Chars.startsAuthority p.toList = false → machinePath (file ++ ":" ++ p) = .ok p)) ∧
    ∀ u : String,
      (∀ p, machinePath u = .ok p ↔ Leads u.toList p.toList) ∧
      (∀ p, machinePath u = .ok p → p.toList <:+ u.toList) ∧
      ((∀ p, machinePath u ≠ .ok p) →
        ∃ reason, machinePath u = .error reason ∧ OutOfReach u.toList reason.toList ∧
          ∀ (d d' : Transport.Disk) (stop : Transport.StopRule) (options : Transport.Options),
            d.openFile stop u options = d'.openFile stop u options ∧
            ∀ w, (stop.poll w).1 = false →
              (d.openFile stop u options w).attempt =
                ⟨[.poll false], .error (.unsupported u reason)⟩) := by
  refine ⟨fun p file host => machinePath_spellings, fun u => ⟨fun p => machinePath_eq_ok_iff,
    fun p hpath => Chars.suffix_of_leads (machinePath_eq_ok_iff.1 hpath), fun unreached => ?_⟩⟩
  cases hpath : machinePath u with
  | ok p => exact absurd hpath (unreached p)
  | error reason =>
    refine ⟨reason, rfl, machinePath_eq_error_iff.1 hpath, fun d d' stop options => ⟨?_, ?_⟩⟩
    · apply Transport.Disk.openFile_congr
      intro p hp
      exact absurd hp (unreached p)
    · intro w go
      exact Transport.Disk.openFile_of_unsupported hpath go options

end MasterPackage.Location

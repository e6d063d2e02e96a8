import MasterPackage.Proofs.Package.Opening
import MasterPackage.Proofs.Transport.Cancellation

/-!
# Cancelling the opening of a package

The same package is opened twice, once by a caller who never stops and once by one who stops
at the question of a given number, wherever that falls.
-/

namespace MasterPackage.Package

open Transport

variable {ω σ κ : Type} {n : Nat}

section

variable (p : Provider ω σ) (reader : PlaylistReader κ) (settings : Settings) (url : String)
  (supplied : Option σ)

theorem follows_openPlaylist :
    Follows n (· = .load (.interrupted url))
      (openPlaylist p.calm reader settings url supplied)
      (openPlaylist (p.cut n) reader settings url supplied) := by
  rw [openPlaylist_eq, openPlaylist_eq]
  have load := p.follows_load url settings.limits settings.streamOptions supplied (n := n)
  refine (load.announced fun bytes => Action.onlyNotes_reading _ _).mono ?_
  rintro _ ⟨_, rfl, rfl⟩
  rfl

theorem follows_openAssetMap (playlist : κ) :
    Follows n (· = .assetMap (.load (.interrupted (settings.mapUrl url))))
      (openAssetMap p.calm reader settings url playlist)
      (openAssetMap (p.cut n) reader settings url playlist) := by
  rw [openAssetMap_eq, openAssetMap_eq, atUrl_eq, atUrl_eq]
  have load := p.follows_load (settings.mapUrl url) settings.limits settings.streamOptions none
    (n := n)
  refine ((load.announced fun bytes => Action.onlyNotes_reading _ _).announced
    fun r => Action.onlyNotes_pure _).mono ?_
  rintro _ ⟨_, ⟨_, rfl, rfl⟩, rfl⟩
  rfl

/-- An opening was interrupted, while one document or the other was loaded. -/
def Interrupted (settings : Settings) (url : String) (e : Error) : Prop :=
  e = .load (.interrupted url) ∨ e = .assetMap (.load (.interrupted (settings.mapUrl url)))

theorem follows_openDocuments :
    Follows n (fun failure => Interrupted settings url failure.2)
      (openDocuments p.calm reader settings url supplied)
      (openDocuments (p.cut n) reader settings url supplied) := by
  refine Follows.bind (((follows_openPlaylist p reader settings url supplied).mapError _).mono ?_)
    fun playlist => (((follows_openAssetMap p reader settings url playlist).mapError _).mono ?_)
  · rintro _ ⟨_, rfl, rfl⟩
    exact .inl rfl
  · rintro _ ⟨_, rfl, rfl⟩
    exact .inr rfl

theorem Interrupted.kind_eq {settings : Settings} {url : String} {e : Error}
    (h : Interrupted settings url e) : e.kind = .io := by
  rcases h with rfl | rfl
  · rfl
  · rfl

/-- A package is opened by a caller who stops at the question of number `n`, the first having
number zero.  If the opening by a caller who never stops asks no such question, the two are
the same.  Otherwise they go alike up to that question, and there this one is interrupted,
whichever document it falls in: the package has failed and holds nothing, the reads were the
first `n` of the other opening, and every stream that was opened is closed. -/
theorem opening_cut (w : ω) (n : Nat) :
    let calm : Occasion (ω × Nat) σ κ := ⟨p.calm, reader, settings, url, supplied, w, 0⟩
    let cut : Occasion (ω × Nat) σ κ := ⟨p.cut n, reader, settings, url, supplied, w, 0⟩
    (Entry.polls calm.journal ≤ n → cut.opening = calm.opening) ∧
    (n < Entry.polls calm.journal →
      (∃ before after rest, calm.journal = before ++ .poll false :: after ∧
        cut.journal = before ++ .poll true :: rest ∧ Entry.polls before = n) ∧
      Entry.reads cut.journal = n ∧
      Entry.readings cut.journal = (Entry.readings calm.journal).take n ∧
      Entry.InTurns (Entry.moves cut.journal) ∧
      (∃ e, cut.opening.outcome.attempt.result = .error e ∧ Interrupted settings url e ∧
        e.kind = .io) ∧
      cut.opening.package = ⟨settings, .failed, none, none, none⟩) := by
  intro calm cut
  obtain ⟨remark, hcalm⟩ := calm.journal_eq
  obtain ⟨remark', hcut⟩ := cut.journal_eq
  have both := follows_openDocuments p reader settings url supplied (n := n)
  have paced : Paced 0 calm.documents := both.paced (w, 0)
  have compared : Cut n 0 (fun failure => Interrupted settings url failure.2) calm.documents
      cut.documents := both.cut (w, 0) (Nat.zero_le n)
  have asked : Entry.polls calm.journal = calm.documents.world.2 := by
    rw [hcalm, Entry.polls_append, paced.count, Nat.zero_add]
    rfl
  rw [asked]
  cases compared with
  | spared le same =>
    refine ⟨fun _ => ?_, fun lt => absurd le (Nat.not_le.2 lt)⟩
    rw [Occasion.opening_eq, Occasion.opening_eq, same]
  | @parted before after rest failure lt hbefore hafter count reads still result hit =>
    refine ⟨fun le => absurd le (Nat.not_le.2 lt), fun _ => ?_⟩
    obtain ⟨stage, e⟩ := failure
    rw [hbefore, List.append_assoc, List.cons_append] at hcalm
    rw [hafter, List.append_assoc, List.cons_append] at hcut
    rw [Nat.zero_add] at count
    have brought : (Entry.readings before).length = n := by
      rw [Entry.length_readings, reads, count]
    -- Nothing is read after the question, so what was read lies in the common part.
    have silent : Entry.readings (.poll true :: (rest ++ [.note remark'])) = [] := by
      rw [← List.length_eq_zero_iff, Entry.length_readings]
      exact (Entry.reads_append rest _).trans still
    have readings : Entry.readings cut.journal = Entry.readings before := by
      rw [hcut, Entry.readings_append, silent, List.append_nil]
    have opening : cut.opening.outcome.attempt.result = .error e ∧
        cut.opening.package = failed settings := by
      rw [Occasion.opening_eq, result]
      exact ⟨rfl, rfl⟩
    refine ⟨⟨before, _, _, hcalm, hcut, count⟩, ?_, ?_, cut.inTurns_journal,
      ⟨e, opening.1, hit, hit.kind_eq⟩, opening.2⟩
    · rw [← Entry.length_readings, readings, brought]
    · rw [readings, hcalm, Entry.readings_append, ← brought, List.take_left]

end

end MasterPackage.Package

import MasterPackage.Proofs.Transport.Journal
import MasterPackage.Proofs.Transport.Turns

/-!
# Cancelled loads

A provider is a host without its caller: its streams do not know of the caller, and it asks
nobody while it opens them.  The same provider is asked for the same load by two callers, one
who never stops and one who stops at the question of a given number.  Both loads go on alike
up to that question, and there the second one ends.

* `Paced`: in the load that nobody stops, every question is followed by a read.
* `Cut`: how the two outcomes compare; `Follows`: two actions whose outcomes compare so
  wherever they begin.
* `Follows.bind`: sequences of actions that follow each other do so.
* `Provider.follows_load`: the two loads do.
-/

namespace MasterPackage.Transport

/-! ## Providers -/

/-- What a host provides, its caller aside.  It opens streams with no more than notes. -/
structure Provider (ω σ : Type) where
  openStream : String → Options → ω → Attempt Note LoadError σ × ω
  read : Nat → σ → ω → Reading × σ × ω
  size? : σ → Option Nat
  atEnd : σ → Bool
  grants : Nat → Nat → Bool
  room : Nat → Bool
  patience : σ → ω → Nat
  patience_lt : ∀ n s w, (read n s w).1 = .again →
    patience (read n s w).2.1 (read n s w).2.2 < patience s w

/-- The host that a provider makes with a caller who answers each question by its number, the
first having number zero.  The number of the next question is kept beside the world. -/
def Provider.host {ω σ : Type} (p : Provider ω σ) (stop : Nat → Bool) : Host (ω × Nat) σ where
  openStream url options w :=
    ⟨(p.openStream url options w.1).1.mapRecord .note, (p.openStream url options w.1).2, w.2⟩
  read n s w := ((p.read n s w.1).1, (p.read n s w.1).2.1, (p.read n s w.1).2.2, w.2)
  size? := p.size?
  atEnd := p.atEnd
  poll w := (stop w.2, w.1, w.2 + 1)
  grants := p.grants
  room := p.room
  patience s w := p.patience s w.1
  incidental url options w e he := by
    obtain ⟨n, -, rfl⟩ := List.mem_map.1 he
    rfl
  patience_lt n s w _ again := p.patience_lt n s w.1 again

/-- The caller never stops. -/
def Provider.calm {ω σ : Type} (p : Provider ω σ) : Host (ω × Nat) σ := p.host fun _ => false

/-- The caller stops at the question of a number, and at every later one. -/
def Provider.cut {ω σ : Type} (p : Provider ω σ) (n : Nat) : Host (ω × Nat) σ :=
  p.host fun k => decide (n ≤ k)

/-- What a rehearsal provides: its streams go by their scripts, whoever calls. -/
def Rehearsal.provider (r : Rehearsal) : Provider Signals Stream where
  openStream url _ w := (.ofExcept (r.source url), w)
  read := Stream.read
  size? := Stream.size?
  atEnd := Stream.atEnd
  grants := r.host.grants
  room := r.host.room
  patience s _ := s.pending
  patience_lt n s w again := s.pending_read_lt n w (by rw [again]; rfl)

/-- An action between lines of its journal. -/
def Action.between {ω ε α : Type} (front back : List Entry) (x : Action ω ε α) : Action ω ε α :=
  fun w => ⟨⟨front ++ (x w).attempt.record ++ back, (x w).attempt.result⟩, (x w).world⟩

/-! ## Two runs -/

variable {ω σ ε ζ α β : Type} {n k : Nat}

/-- A run that began at a question keeps count of them, and reads once after each. -/
structure Paced (k : Nat) (y : Outcome (ω × Nat) ε α) : Prop where
  count : y.world.2 = k + Entry.polls y.attempt.record
  reads : Entry.reads y.attempt.record = Entry.polls y.attempt.record

theorem Paced.behind {front : List Entry} {k' : Nat} {y : Outcome (ω × Nat) ε α}
    (h : Paced k' y) (count : k' = k + Entry.polls front)
    (paced : Entry.reads front = Entry.polls front) (result : Except ζ β) :
    Paced k ⟨⟨front ++ y.attempt.record, result⟩, y.world⟩ := by
  constructor
  · rw [Entry.polls_append, h.count, count, Nat.add_assoc]
  · rw [Entry.polls_append, Entry.reads_append, paced, h.reads]

theorem Paced.append {back : List Entry} {y : Outcome (ω × Nat) ε α} (h : Paced k y)
    (quiet : Entry.Quiet back) (result : Except ζ β) :
    Paced k ⟨⟨y.attempt.record ++ back, result⟩, y.world⟩ := by
  constructor
  · rw [Entry.polls_append, quiet.1, h.count]
    rfl
  · rw [Entry.polls_append, Entry.reads_append, quiet.1, quiet.2, h.reads]

/-- How a run that began at question `k` compares to the one that is to be stopped at question
`n`: that question is not reached and the runs are the same, or it is reached, and there the
second run parts from the first and ends with an error of the stop. -/
inductive Cut (n k : Nat) (stopped : ε → Prop) (calm cut : Outcome (ω × Nat) ε α) : Prop
  | spared : calm.world.2 ≤ n → cut = calm → Cut n k stopped calm cut
  | parted {before after rest : List Entry} {e : ε} : n < calm.world.2 →
    calm.attempt.record = before ++ .poll false :: after →
    cut.attempt.record = before ++ .poll true :: rest →
    k + Entry.polls before = n → Entry.reads before = Entry.polls before → Entry.reads rest = 0 →
    cut.attempt.result = .error e → stopped e → Cut n k stopped calm cut

/-- Wherever two actions begin before the question of a number, they compare like a calm run
and one that is stopped there. -/
structure Follows (n : Nat) (stopped : ε → Prop) (calm cut : Action (ω × Nat) ε α) : Prop where
  paced : ∀ w, Paced w.2 (calm w)
  cut : ∀ w, w.2 ≤ n → Cut n w.2 stopped (calm w) (cut w)

theorem Cut.mono {stopped stopped' : ε → Prop} {calm cut : Outcome (ω × Nat) ε α}
    (h : Cut n k stopped calm cut) (hstopped : ∀ e, stopped e → stopped' e) :
    Cut n k stopped' calm cut := by
  cases h with
  | spared le same => exact .spared le same
  | parted lt hcalm hcut count reads still result hit =>
    exact .parted lt hcalm hcut count reads still result (hstopped _ hit)

theorem Cut.map {stopped : ε → Prop} {calm cut : Outcome (ω × Nat) ε α}
    (h : Cut n k stopped calm cut) (g : α → β) :
    Cut n k stopped ⟨⟨calm.attempt.record, calm.attempt.result.map g⟩, calm.world⟩
      ⟨⟨cut.attempt.record, cut.attempt.result.map g⟩, cut.world⟩ := by
  cases h with
  | spared le same => exact .spared le (by rw [same])
  | parted lt hcalm hcut count reads still result hit =>
    exact .parted lt hcalm hcut count reads still (by simp only [result]; rfl) hit

/-- Both runs come behind what happened before them, with a read for every question. -/
theorem Cut.behind {stopped : ε → Prop} {front : List Entry} {k' : Nat}
    {calm cut : Outcome (ω × Nat) ε α} (h : Cut n k' stopped calm cut)
    (count : k' = k + Entry.polls front) (paced : Entry.reads front = Entry.polls front) :
    Cut n k stopped
      ⟨⟨front ++ calm.attempt.record, calm.attempt.result⟩, calm.world⟩
      ⟨⟨front ++ cut.attempt.record, cut.attempt.result⟩, cut.world⟩ := by
  cases h with
  | spared le same => exact .spared le (by rw [same])
  | @parted before after rest e lt hcalm hcut asked reads still result hit =>
    have hcalm' : front ++ calm.attempt.record = (front ++ before) ++ .poll false :: after := by
      rw [hcalm, List.append_assoc]
    have hcut' : front ++ cut.attempt.record = (front ++ before) ++ .poll true :: rest := by
      rw [hcut, List.append_assoc]
    refine .parted lt hcalm' hcut' ?_ ?_ still result hit
    · rw [Entry.polls_append, ← asked, count, Nat.add_assoc]
    · rw [Entry.polls_append, Entry.reads_append, paced, reads]

/-- The same happens at the end of both runs, and neither asks nor reads. -/
theorem Cut.append {stopped : ε → Prop} {back : List Entry} {calm cut : Outcome (ω × Nat) ε α}
    (h : Cut n k stopped calm cut) (quiet : Entry.Quiet back) :
    Cut n k stopped
      ⟨⟨calm.attempt.record ++ back, calm.attempt.result⟩, calm.world⟩
      ⟨⟨cut.attempt.record ++ back, cut.attempt.result⟩, cut.world⟩ := by
  cases h with
  | spared le same => exact .spared le (by rw [same])
  | @parted before after rest e lt hcalm hcut asked reads still result hit =>
    have hcalm' : calm.attempt.record ++ back = before ++ .poll false :: (after ++ back) := by
      rw [hcalm, List.append_assoc, List.cons_append]
    have hcut' : cut.attempt.record ++ back = before ++ .poll true :: (rest ++ back) := by
      rw [hcut, List.append_assoc, List.cons_append]
    have still' : Entry.reads (rest ++ back) = 0 := by rw [Entry.reads_append, still, quiet.2]
    exact .parted lt hcalm' hcut' asked reads still' result hit

namespace Follows

variable {stopped : ε → Prop} {x x' : Action (ω × Nat) ε α} {f f' : α → Action (ω × Nat) ε β}

/-- What neither asks nor reads follows itself. -/
theorem of_quiet (h : ∀ w, (x w).world.2 = w.2 ∧ Entry.Quiet (x w).attempt.record) :
    Follows n stopped x x := by
  refine ⟨fun w => ?_, fun w le => .spared ?_ rfl⟩
  · obtain ⟨count, polls, reads⟩ := h w
    exact ⟨by rw [count, polls]; rfl, by rw [reads, polls]⟩
  · rw [(h w).1]
    exact le

theorem of_onlyNotes (h : Action.OnlyNotes x) : Follows n stopped x x := by
  refine of_quiet fun w => ?_
  obtain ⟨world, notes, record⟩ := h w
  rw [world, record]
  exact ⟨rfl, Entry.quiet_notes notes⟩

theorem mono {stopped' : ε → Prop} (h : Follows n stopped x x')
    (hstopped : ∀ e, stopped e → stopped' e) : Follows n stopped' x x' :=
  ⟨h.paced, fun w le => (h.cut w le).mono hstopped⟩

theorem mapError (h : Follows n stopped x x') (g : ε → ζ) :
    Follows n (fun z => ∃ e, stopped e ∧ g e = z) (x.mapError g) (x'.mapError g) := by
  refine ⟨fun w => ⟨(h.paced w).count, (h.paced w).reads⟩, fun w le => ?_⟩
  cases h.cut w le with
  | spared le same => exact .spared le (by simp only [Action.mapError, same])
  | parted lt hcalm hcut count reads still result hit =>
    refine .parted lt hcalm hcut count reads still ?_ ⟨_, hit, rfl⟩
    exact Attempt.mapError_eq_error_iff.2 ⟨_, result, rfl⟩

/-- One action after the other. -/
theorem bind (hx : Follows n stopped x x') (hf : ∀ a, Follows n stopped (f a) (f' a)) :
    Follows n stopped (x.bind f) (x'.bind f') := by
  constructor
  · intro w
    obtain ⟨count, reads⟩ := hx.paced w
    cases h : (x w).attempt.result with
    | error e =>
      rw [Action.bind_error h]
      exact ⟨count, reads⟩
    | ok a =>
      rw [Action.bind_ok h]
      exact ((hf a).paced (x w).world).behind count reads _
  · intro w le
    obtain ⟨count, reads⟩ := hx.paced w
    cases hx.cut w le with
    | spared le₁ same =>
      cases h : (x w).attempt.result with
      | error e =>
        rw [Action.bind_error h, Action.bind_error (by rw [same]; exact h), same]
        exact .spared le₁ rfl
      | ok a =>
        rw [Action.bind_ok h, Action.bind_ok (by rw [same]; exact h), same]
        exact ((hf a).cut (x w).world le₁).behind count reads
    | @parted before after rest e lt hcalm hcut asked reads still result hit =>
      -- The stopped run ends in the first action; whether the calm one goes on is all the same.
      rw [Action.bind_error result]
      cases h : (x w).attempt.result with
      | error e =>
        rw [Action.bind_error h]
        exact .parted lt hcalm hcut asked reads still rfl hit
      | ok a =>
        have later := ((hf a).paced (x w).world).count
        have longer : (x w).attempt.record ++ (f a (x w).world).attempt.record =
            before ++ .poll false :: (after ++ (f a (x w).world).attempt.record) := by
          rw [hcalm, List.append_assoc, List.cons_append]
        rw [Action.bind_ok h]
        exact .parted (by rw [later]; omega) longer hcut asked reads still rfl hit

theorem announced {before : Note} {g : ε → ζ} {after : α → Action (ω × Nat) ζ β}
    (hx : Follows n stopped x x') (hafter : ∀ a, Action.OnlyNotes (after a)) :
    Follows n (fun z => ∃ e, stopped e ∧ g e = z) (Action.announced before x g after)
      (Action.announced before x' g after) := by
  refine bind (of_onlyNotes (Action.onlyNotes_note before)) fun _ => ?_
  exact (hx.mapError g).bind fun a => of_onlyNotes (hafter a)

/-- What neither asks nor reads may stand before an action and behind it. -/
theorem between {front back : List Entry} (hx : Follows n stopped x x')
    (hfront : Entry.Quiet front) (hback : Entry.Quiet back) :
    Follows n stopped (x.between front back) (x'.between front back) := by
  have count (w : ω × Nat) : w.2 = w.2 + Entry.polls front := by rw [hfront.1]; rfl
  have paced : Entry.reads front = Entry.polls front := by rw [hfront.1, hfront.2]
  constructor
  · exact fun w => ((hx.paced w).behind (count w) paced (x w).attempt.result).append hback _
  · exact fun w le => ((hx.cut w le).behind (count w) paced).append hback

end Follows

/-! ## Loads -/

namespace Provider

variable (p : Provider ω σ) (maxSize : Nat) (url : String)

theorem paced_drain (held : Nat) (s : σ) (w : ω × Nat) :
    Paced w.2 (p.calm.drain maxSize url held s w).outcome := by
  induction held, s, w using p.calm.drain_induction maxSize url with
  | step held s w ih =>
    have quiet := p.calm.quiet_turn maxSize url held (p.calm.round 0 s w).reading
      (p.calm.round 0 s w).atEnd
    obtain ⟨polls, reads⟩ := Entry.counts_turn quiet (p.calm.round 0 s w).reading
    cases hturn : p.calm.turn maxSize url held (p.calm.round 0 s w).reading
        (p.calm.round 0 s w).atEnd with
    | last more result =>
      rw [hturn] at polls reads
      rw [Host.drain_of_last rfl hturn]
      exact ⟨congrArg (w.2 + ·) polls.symm, reads.trans polls.symm⟩
    | onward more chunk =>
      rw [hturn] at polls reads
      rw [Host.drain_of_onward rfl hturn]
      exact (ih more chunk rfl hturn).behind (congrArg (w.2 + ·) polls.symm)
        (reads.trans polls.symm) _

theorem cut_drain (held : Nat) (s : σ) (w : ω × Nat) (le : w.2 ≤ n) :
    Cut n w.2 (· = .interrupted url) (p.calm.drain maxSize url held s w).outcome
      ((p.cut n).drain maxSize url held s w).outcome := by
  induction held, s, w using p.calm.drain_induction maxSize url with
  | step held s w ih =>
    have quiet := p.calm.quiet_turn maxSize url held (p.calm.round 0 s w).reading
      (p.calm.round 0 s w).atEnd
    obtain ⟨polls, reads⟩ := Entry.counts_turn quiet (p.calm.round 0 s w).reading
    have paced := p.paced_drain maxSize url held s w
    rcases Nat.lt_or_eq_of_le le with lt | rfl
    · have go : ((p.cut n).poll w).1 = false := decide_eq_false (Nat.not_le.2 lt)
      cases hturn : p.calm.turn maxSize url held (p.calm.round 0 s w).reading
        (p.calm.round 0 s w).atEnd with
      | last more result =>
        rw [Host.drain_of_last rfl hturn, Host.drain_of_last go hturn]
        exact .spared lt rfl
      | onward more chunk =>
        rw [hturn] at polls reads
        rw [Host.drain_of_onward rfl hturn, Host.drain_of_onward go hturn]
        exact ((ih more chunk rfl hturn lt).map (chunk ++ ·)).behind
          (congrArg (w.2 + ·) polls.symm) (reads.trans polls.symm)
    · -- This is the question to stop at.  The calm run asks it too, so it does end later.
      have stop : ((p.cut w.2).poll w).1 = true := decide_eq_true (Nat.le_refl w.2)
      obtain ⟨later, asks⟩ := p.calm.drain_asks maxSize url held s w
      have begins : (p.calm.drain maxSize url held s w).outcome.attempt.record =
          [] ++ .poll false :: later := asks
      have count : w.2 < (p.calm.drain maxSize url held s w).outcome.world.2 := by
        rw [paced.count, begins]
        exact Nat.lt_add_of_pos_right (Nat.succ_pos _)
      have ends : [Entry.poll true] = [] ++ .poll true :: [] := rfl
      rw [Host.drain_of_stop stop]
      exact .parted count begins ends rfl rfl rfl rfl rfl

theorem follows_draining (held : Nat) (s : σ) :
    Follows n (· = .interrupted url) (p.calm.draining maxSize url held s)
      ((p.cut n).draining maxSize url held s) :=
  ⟨p.paced_drain maxSize url held s, p.cut_drain maxSize url held s⟩

theorem follows_readingAll (limits : Limits) (s : σ) :
    Follows n (· = .interrupted url) (p.calm.readingAll limits url s)
      ((p.cut n).readingAll limits url s) := by
  rw [Host.readingAll_eq, Host.readingAll_eq]
  refine Follows.bind (Follows.of_quiet fun w => ⟨rfl, rfl, rfl⟩) fun _ => ?_
  by_cases granted : p.calm.grants 0 (p.calm.firstReservation limits s) = true
  · have granted' : (p.cut n).grants 0 ((p.cut n).firstReservation limits s) = true := granted
    rw [if_pos granted, if_pos granted']
    refine (p.follows_draining _ url 0 s).bind fun bytes => Follows.of_onlyNotes ?_
    exact (Action.onlyNotes_note _).bind fun _ => Action.onlyNotes_pure bytes
  · have refused : ¬ (p.cut n).grants 0 ((p.cut n).firstReservation limits s) = true := granted
    rw [if_neg granted, if_neg refused]
    exact Follows.of_onlyNotes fun w => ⟨rfl, [], rfl⟩

theorem follows_readAndClose (limits : Limits) (s : σ) :
    Follows n (· = .interrupted url) (p.calm.readAndClose limits url s)
      ((p.cut n).readAndClose limits url s) := by
  have hfront : Entry.Quiet [.opened url] := ⟨rfl, rfl⟩
  have hback : Entry.Quiet [.closing url, .note (Host.closedNote url)] := ⟨rfl, rfl⟩
  exact (p.follows_readingAll url limits s).between hfront hback

/-- The load that a caller stops follows the one that nobody stops. -/
theorem follows_load (limits : Limits) (options : Options) (supplied : Option σ) :
    Follows n (· = .interrupted url) (p.calm.load limits options url supplied)
      ((p.cut n).load limits options url supplied) := by
  cases supplied with
  | some s => exact p.follows_readingAll url limits s
  | none =>
    rw [Host.load_opened, Host.load_opened]
    refine Follows.bind (Follows.of_quiet fun w => ⟨rfl, rfl, rfl⟩) fun _ => ?_
    refine Follows.bind (Follows.of_quiet fun w => ⟨rfl, Entry.quiet_notes _⟩) fun s => ?_
    exact p.follows_readAndClose url limits s

/-- A load of two bytes asks a second time, to find that they end there, and a caller who stops
then is left without them. -/
example :
    let p := (⟨[], .never⟩ : Rehearsal).provider
    let s := Stream.memory ⟨[1, 2], 0, true⟩
    ((p.cut 1).load ⟨8, 4⟩ .empty "mem://a" (some s) (⟨false, 0⟩, 0)).attempt.result =
      .error (.interrupted "mem://a") := by cbv

end Provider

end MasterPackage.Transport

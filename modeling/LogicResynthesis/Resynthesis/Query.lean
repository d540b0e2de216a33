import LogicResynthesis.Resynthesis.Cone
import LogicResynthesis.Resynthesis.Engine
import LogicResynthesis.TruthTable.Table

/-!
# Queries

A query asks for circuits of a function over leaves of a target network. The
function is widened to four inputs and classified, and every library signal
registered for its class is copied into the target: library input `i` becomes
the leaf that drives it, complemented as the transform says, and the copy is
complemented if exactly one of the registered signal and the transform is.

Candidates are offered one at a time, and the query stops when an offer is not
accepted. Gates shared between candidates are built once. A function of more
than four inputs, or of a class that the library does not cover, has none.
-/

namespace LogicResynthesis

open Npn (ClassTable Transform)

namespace Engine

/-- The leaf that drives library input `i`; a missing leaf is constant `false`. -/
def leaf (t : Transform) (leaves : List Signal) (i : Fin 4) : Signal :=
  let k := (t.source i).val
  (leaves[k]?.getD (.constant false)).complementIf (t.polarity.inputNegated k)

/-- The memo of the constant and of the library inputs. -/
def seed (e : Engine) (t : Transform) (leaves : List Signal) : Except Fault Memo :=
  (List.finRange 4).foldlM
    (fun memo (i : Fin 4) => do return memo.insert (← e.library.inputNode? i) (leaf t leaves i))
    ((∅ : Memo).insert 0 (.constant false))

/-- The signals that a query offered, and its target at the end. -/
structure Outcome (σ : Type) where
  offers : List Signal
  target : σ

variable {σ : Type} [Network σ]

/-- Offers a candidate for each library signal until one is not accepted. The question
whether to go on is put with all offers so far. -/
def offerAll (e : Engine) (t : Transform) (accept : List Signal → Bool) :
    List Signal → List Signal → Copy σ → Except Fault (Outcome σ)
  | [], offers, c => .ok ⟨offers, c.target⟩
  | candidate :: rest, offers, c =>
    match Copy.addCone e.library c candidate.node with
    | .error f => .error f
    | .ok (s, c) =>
      let offers := offers ++ [s.complementIf (candidate.negated != t.polarity.output)]
      if accept offers then offerAll e t accept rest offers c
      else .ok ⟨offers, c.target⟩

/-- Offers the circuits of `function` over `leaves`, `leaves[i]` driving input `i`. -/
def query (e : Engine) (function : Table) (leaves : List Signal)
    (accept : List Signal → Bool) (target : σ) : Except Fault (Outcome σ) :=
  match function.toTable4? with
  | none => .ok ⟨[], target⟩
  | some f =>
    let entry := ClassTable.standard.lookup f
    match e.index.get? entry.representative with
    | none => .ok ⟨[], target⟩
    | some candidates =>
      match e.seed entry.transform leaves with
      | .error f => .error f
      | .ok memo => offerAll e entry.transform accept candidates [] ⟨memo, target⟩

/-- Accepts every offer, or goes on while fewer than `limit` have been made. -/
def belowLimit (limit : Option Nat) (offers : List Signal) : Bool :=
  match limit with
  | none => true
  | some n => offers.length < n

end Engine

end LogicResynthesis

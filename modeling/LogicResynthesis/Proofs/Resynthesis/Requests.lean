import Mathlib.Tactic.SplitIfs
import LogicResynthesis.Proofs.Fault
import LogicResynthesis.Resynthesis.Query

/-!
# Requests for gates

A query reaches its target through requests for gates only. On two targets that
answer requests alike, whatever these are, it goes alike. So the log that a
recorded target keeps and the numbers that a counted one keeps tell what is
requested of the plain target.
-/

namespace LogicResynthesis

inductive GateKind
  | and
  | xor
deriving DecidableEq

namespace GateKind

def request? {σ : Type} [Network σ] : GateKind → σ → Signal → Signal → Except Fault (Signal × σ)
  | and => Network.addAnd?
  | xor => Network.addXor?

def node : GateKind → Signal → Signal → Xag.Node
  | and => .and
  | xor => .xor

end GateKind

/-- Related targets fault alike, or give the same signal and are related again. -/
def Simulates {σ τ : Type} [Network σ] [Network τ] (R : σ → τ → Prop) : Prop :=
  ∀ (kind : GateKind) (g : σ) (h : τ) (x y : Signal), R g h →
    Alike (fun p q => p.1 = q.1 ∧ R p.2 q.2) (kind.request? g x y) (kind.request? h x y)

variable {σ τ : Type} [Network σ] [Network τ] {R : σ → τ → Prop}

namespace Copy

/-- The memos are the same and the targets are related. -/
def Related (R : σ → τ → Prop) (c : Copy σ) (d : Copy τ) : Prop :=
  c.memo = d.memo ∧ R c.target d.target

theorem addNode_alike (hR : Simulates R) {c : Copy σ} {d : Copy τ} (h : Related R c d)
    (library : Xag) (n : Nat) :
    Alike (Related R) (addNode library c n) (addNode library d n) := by
  obtain ⟨memo, g⟩ := c
  obtain ⟨_, h'⟩ := d
  obtain ⟨rfl, hg⟩ := h
  have hgate : ∀ (kind : GateKind) (x y : Signal),
      Alike (Related R)
        (do
          let r ← kind.request? g (← Memo.resolve? memo x) (← Memo.resolve? memo y)
          return (⟨memo.insert n r.1, r.2⟩ : Copy σ))
        (do
          let r ← kind.request? h' (← Memo.resolve? memo x) (← Memo.resolve? memo y)
          return (⟨memo.insert n r.1, r.2⟩ : Copy τ)) := by
    intro kind x y
    refine Alike.refl.bind ?_
    rintro s _ rfl
    refine Alike.refl.bind ?_
    rintro t _ rfl
    refine (hR kind g h' s t hg).bind ?_
    rintro ⟨s₁, g₁⟩ ⟨_, h₁⟩ ⟨rfl, hg₁⟩
    exact .ok ⟨rfl, hg₁⟩
  refine Alike.refl.bind ?_
  rintro node _ rfl
  cases node with
  | constant => exact .error _
  | input i => exact .error _
  | and x y => exact hgate .and x y
  | xor x y => exact hgate .xor x y

theorem addCone_alike (hR : Simulates R) {c : Copy σ} {d : Copy τ} (h : Related R c d)
    (library : Xag) (root : Nat) :
    Alike (fun p q => p.1 = q.1 ∧ Related R p.2 q.2) (addCone library c root)
      (addCone library d root) := by
  unfold addCone
  rw [h.1]
  refine Alike.refl.bind ?_
  rintro order _ rfl
  refine (Alike.foldlM (fun c d n hcd => addNode_alike hR hcd library n) order h).bind ?_
  intro c' d' h'
  rw [h'.1]
  refine Alike.refl.bind ?_
  rintro s _ rfl
  exact .ok ⟨rfl, h'⟩

end Copy

namespace Engine

/-- The offers are the same and the targets are related. -/
def Outcome.Related (R : σ → τ → Prop) (o : Outcome σ) (p : Outcome τ) : Prop :=
  o.offers = p.offers ∧ R o.target p.target

variable (e : Engine)

theorem offerAll_alike (hR : Simulates R) (t : Npn.Transform) (accept : List Signal → Bool)
    (candidates : List Signal) {offers : List Signal} {c : Copy σ} {d : Copy τ}
    (h : Copy.Related R c d) :
    Alike (Outcome.Related R) (offerAll e t accept candidates offers c)
      (offerAll e t accept candidates offers d) := by
  induction candidates generalizing offers c d with
  | nil => exact .ok ⟨rfl, h.2⟩
  | cons candidate rest ih =>
    unfold offerAll
    rcases (Copy.addCone_alike hR h e.library candidate.node).error_or_ok with
      ⟨f, hc, hd⟩ | ⟨⟨s, c'⟩, ⟨s', d'⟩, hc, hd, rfl, h'⟩
    · rw [hc, hd]
      exact .error f
    · rw [hc, hd]
      dsimp only
      split_ifs
      · exact ih h'
      · exact .ok ⟨rfl, h'.2⟩

theorem query_alike (hR : Simulates R) (function : Table) (leaves : List Signal)
    (accept : List Signal → Bool) {g : σ} {h : τ} (hgh : R g h) :
    Alike (Outcome.Related R) (e.query function leaves accept g)
      (e.query function leaves accept h) := by
  unfold query
  cases function.toTable4? with
  | none => exact .ok ⟨rfl, hgh⟩
  | some f =>
    dsimp only
    cases e.index.get? (Npn.ClassTable.standard.lookup f).representative with
    | none => exact .ok ⟨rfl, hgh⟩
    | some candidates =>
      dsimp only
      cases e.seed (Npn.ClassTable.standard.lookup f).transform leaves with
      | error f => exact .error f
      | ok memo => exact offerAll_alike e hR _ accept candidates ⟨rfl, hgh⟩

end Engine

/-- A request and the signal that answered it. -/
structure Call where
  kind : GateKind
  left : Signal
  right : Signal
  answer : Signal
deriving DecidableEq

def Call.count (kind : GateKind) (calls : List Call) : Nat := calls.countP (·.kind = kind)

theorem Call.count_concat (kind : GateKind) (calls : List Call) (call : Call) :
    count kind (calls ++ [call]) = count kind calls + if call.kind = kind then 1 else 0 := by
  simp only [count, List.countP_append, List.countP_singleton, decide_eq_true_eq]

/-- A target with the requests that were made of it, in order. -/
structure Recorded (σ : Type) where
  target : σ
  calls : List Call

namespace Recorded

/-- A request of the target that is put on record. -/
def request? (kind : GateKind) (r : Recorded σ) (x y : Signal) :
    Except Fault (Signal × Recorded σ) :=
  (kind.request? r.target x y).map fun p => (p.1, ⟨p.2, r.calls ++ [⟨kind, x, y, p.1⟩]⟩)

instance : Network (Recorded σ) where
  addAnd? := request? .and
  addXor? := request? .xor

theorem request?_eq (kind : GateKind) (r : Recorded σ) (x y : Signal) :
    kind.request? r x y = request? kind r x y := by
  cases kind <;> rfl

theorem exists_of_request? {kind : GateKind} {r r' : Recorded σ} {x y s : Signal}
    (h : kind.request? r x y = .ok (s, r')) :
    ∃ g, kind.request? r.target x y = .ok (s, g) ∧ r' = ⟨g, r.calls ++ [⟨kind, x, y, s⟩]⟩ := by
  rw [request?_eq, request?] at h
  cases hrequest : kind.request? r.target x y with
  | error f =>
    rw [hrequest] at h
    cases h
  | ok p =>
    rw [hrequest] at h
    obtain ⟨rfl, rfl⟩ := Prod.mk.inj (Except.ok.inj h)
    exact ⟨p.2, rfl, rfl⟩

theorem simulates_target : Simulates fun (r : Recorded σ) (g : σ) => g = r.target := by
  rintro kind r _ x y rfl
  rw [request?_eq, request?]
  cases kind.request? r.target x y with
  | error f => exact .error f
  | ok p => exact .ok ⟨rfl, rfl⟩

theorem simulates_append (earlier : List Call) :
    Simulates fun (r r' : Recorded σ) => r' = ⟨r.target, earlier ++ r.calls⟩ := by
  rintro kind r _ x y rfl
  rw [request?_eq, request?_eq]
  refine Alike.map_same fun p => ⟨rfl, ?_⟩
  rw [List.append_assoc]

theorem simulates_counted (ands xors : Nat) :
    Simulates fun (r : Recorded σ) (c : Counted σ) =>
      c = ⟨r.target, ands + Call.count .and r.calls, xors + Call.count .xor r.calls⟩ := by
  rintro kind r _ x y rfl
  rw [request?_eq]
  cases kind with
  | and =>
    refine Alike.map_same fun p => ⟨rfl, ?_⟩
    simp [Call.count_concat, Nat.add_assoc]
  | xor =>
    refine Alike.map_same fun p => ⟨rfl, ?_⟩
    simp [Call.count_concat, Nat.add_assoc]

end Recorded

namespace Engine

/-- A query that ends with the outcome makes the calls: a recorded target has them after all that
was recorded before, and a counted one adds their numbers to those before. -/
structure Requests (e : Engine) (function : Table) (leaves : List Signal)
    (accept : List Signal → Bool) (target : σ) (outcome : Outcome σ) (calls : List Call) :
    Prop where
  recorded : ∀ earlier, e.query function leaves accept (⟨target, earlier⟩ : Recorded σ) =
    .ok ⟨outcome.offers, ⟨outcome.target, earlier ++ calls⟩⟩
  counted : ∀ ands xors, e.query function leaves accept (⟨target, ands, xors⟩ : Counted σ) =
    .ok ⟨outcome.offers,
      ⟨outcome.target, ands + Call.count .and calls, xors + Call.count .xor calls⟩⟩

theorem exists_requests {e : Engine} {function : Table} {leaves : List Signal}
    {accept : List Signal → Bool} {target : σ} {outcome : Outcome σ}
    (h : e.query function leaves accept target = .ok outcome) :
    ∃ calls, e.Requests function leaves accept target outcome calls := by
  obtain ⟨offers, last⟩ := outcome
  have hstart : ((⟨target, []⟩ : Recorded σ)).target = target := rfl
  rcases (e.query_alike Recorded.simulates_target function leaves accept hstart.symm).error_or_ok
    with ⟨f, -, hplain⟩ | ⟨⟨offers', r⟩, outcome', hrecorded, hplain, hoffers, htarget⟩
  · cases h.symm.trans hplain
  · obtain rfl := Except.ok.inj (h.symm.trans hplain)
    obtain ⟨last', calls⟩ := r
    obtain rfl : offers' = offers := hoffers
    obtain rfl : last = last' := htarget
    refine ⟨calls, fun earlier => ?_, fun ands xors => ?_⟩
    · have hearlier : (⟨target, earlier⟩ : Recorded σ) = ⟨target, earlier ++ []⟩ := by
        rw [List.append_nil]
      obtain ⟨⟨_, _⟩, hquery, rfl, rfl⟩ := (e.query_alike (Recorded.simulates_append earlier)
        function leaves accept hearlier).exists_ok hrecorded
      exact hquery
    · obtain ⟨⟨_, _⟩, hquery, rfl, rfl⟩ :=
        (e.query_alike (Recorded.simulates_counted ands xors) function leaves accept
          (g := ⟨target, []⟩) rfl).exists_ok hrecorded
      exact hquery

theorem query_keeps {P : σ → Prop}
    (hP : ∀ (kind : GateKind) (g : σ) (x y s : Signal) (g' : σ),
      P g → kind.request? g x y = .ok (s, g') → P g')
    {e : Engine} {function : Table} {leaves : List Signal} {accept : List Signal → Bool}
    {target : σ} {outcome : Outcome σ} (h : e.query function leaves accept target = .ok outcome)
    (htarget : P target) : P outcome.target := by
  have hsame : Simulates fun (g h : σ) => g = h ∧ P g := by
    rintro kind g _ x y ⟨rfl, hg⟩
    cases hrequest : kind.request? g x y with
    | error f => exact .error f
    | ok p => exact .ok ⟨rfl, rfl, hP kind g x y p.1 p.2 hg hrequest⟩
  obtain ⟨outcome', hquery, -, -, hlast⟩ :=
    (e.query_alike hsame function leaves accept ⟨rfl, htarget⟩).exists_ok h
  exact hlast

end Engine
end LogicResynthesis

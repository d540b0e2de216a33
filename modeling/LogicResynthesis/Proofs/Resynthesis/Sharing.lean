import LogicResynthesis.Proofs.Library.Coverage
import LogicResynthesis.Proofs.Resynthesis.Cones
import LogicResynthesis.Proofs.Resynthesis.Query

/-!
# Gates shared within a query

A query requests each gate in the cones of the library signals that it offers
once, and no other gate. It goes by the library and the leaves only, so requests
of earlier queries make no difference.
-/

namespace LogicResynthesis
namespace Engine

open Npn (ClassTable Transform canonical)

/-- The library signals that a query for `f` goes through. -/
def candidates (e : Engine) (f : Table4) : List Signal :=
  e.index.signals (ClassTable.standard.representative f)

theorem candidates_eq (e : Engine) (f : Table4) :
    e.candidates f = e.index.signals (canonical f).representative := by
  rw [candidates, ClassTable.representative_standard]

/-- The copy of the candidate, complemented if exactly one of candidate and transform is. -/
def IsOffer (memo : Memo) (t : Transform) (candidate offer : Signal) : Prop :=
  ∃ s, memo[candidate.node]? = some s ∧
    offer = s.complementIf (candidate.negated != t.polarity.output)

theorem IsOffer.extends {memo memo' : Memo} {t : Transform} {candidate offer : Signal}
    (h : IsOffer memo t candidate offer) (hmemo : memo.Extends memo') :
    IsOffer memo' t candidate offer := by
  obtain ⟨s, hs, rfl⟩ := h
  exact ⟨s, hmemo _ s hs, rfl⟩

section Seed

variable {library : Xag} {leafAt : Fin 4 → Signal} {memo : Memo}

theorem Seeded.kindAt? (h : Seeded library leafAt memo) (hlibrary : library.WellFormed) {n : Nat}
    (hn : memo.contains n = true) : library.kindAt? n = none := by
  obtain ⟨s, hs⟩ := Copy.exists_of_contains hn
  rcases h.entry n s hs with ⟨rfl, -⟩ | ⟨i, hi, -⟩
  · simp [Xag.kindAt?, hlibrary.zero, Xag.Node.kind?]
  · simp [Xag.kindAt?, (hlibrary.input_iff i n).mp hi, Xag.Node.kind?]

theorem Seeded.constant (h : Seeded library leafAt memo) (hlibrary : library.WellFormed) :
    memo[0]? = some (.constant false) := by
  obtain ⟨s, hs⟩ := Copy.exists_of_contains h.zero
  rcases h.entry 0 s hs with ⟨-, rfl⟩ | ⟨i, hi, -⟩
  · exact hs
  · cases hlibrary.zero.symm.trans ((hlibrary.input_iff i 0).mp hi)

theorem Seeded.input (h : Seeded library leafAt memo) (hlibrary : library.WellFormed) {i : Fin 4}
    {n : Nat} (hi : library.inputs[i.val]? = some n) : memo[n]? = some (leafAt i) := by
  obtain ⟨s, hs⟩ := Copy.exists_of_contains (h.contains i n hi)
  have hnode := (hlibrary.input_iff i n).mp hi
  rcases h.entry n s hs with ⟨rfl, -⟩ | ⟨j, hj, rfl⟩
  · cases hlibrary.zero.symm.trans hnode
  · have hsame := hnode.symm.trans ((hlibrary.input_iff j n).mp hj)
    obtain rfl : i = j := Fin.ext (Xag.Node.input.inj (Option.some.inj hsame))
    exact hs

end Seed

/-- So far the candidates `offered` have been offered as `offers`; the gates in their cones have
been copied, in the given order. -/
structure Progress {σ : Type} (library : Xag) (t : Transform) (leaves : List Signal) (memo₀ : Memo)
    (offered offers : List Signal) (order : List Nat) (c : Copy (Recorded σ)) : Prop where
  traced : Copy.Traced library leaves memo₀ order c
  mem_order : ∀ n, n ∈ order ↔
    memo₀.contains n = false ∧ ∃ s ∈ offered, library.InCone s.node n
  offers : List.Forall₂ (IsOffer c.memo t) offered offers

section Run

variable {σ : Type} [Network σ] {e : Engine} {t : Transform} {leaves : List Signal} {memo₀ : Memo}
  {offered offers : List Signal} {order : List Nat} {c : Copy (Recorded σ)}

theorem Progress.addCone (h : Progress e.library t leaves memo₀ offered offers order c)
    (hlibrary : e.library.WellFormed)
    (hmemo : ∀ n, memo₀.contains n = true → Copy.faninsOf e.library n = []) {candidate : Signal}
    (hhas : e.library.Has candidate) {s : Signal} {c' : Copy (Recorded σ)}
    (hadd : Copy.addCone e.library c candidate.node = .ok (s, c')) :
    ∃ order', Progress e.library t leaves memo₀ (offered ++ [candidate])
      (offers ++ [s.complementIf (candidate.negated != t.polarity.output)]) order' c' := by
  obtain ⟨order', htraced, hextends, hs, hmem⟩ := h.traced.addCone hlibrary hmemo hhas hadd
  refine ⟨order', htraced, fun n => ?_, ?_⟩
  · rw [hmem, h.mem_order, ← and_or_left]
    simp only [List.mem_append, List.mem_singleton, or_and_right, exists_or, exists_eq_left]
  · exact List.rel_append (h.offers.imp fun _ _ hoffer => hoffer.extends hextends)
      (.cons ⟨s, hs, rfl⟩ .nil)

theorem Progress.offerAll (h : Progress e.library t leaves memo₀ offered offers order c)
    (hlibrary : e.library.WellFormed)
    (hmemo : ∀ n, memo₀.contains n = true → Copy.faninsOf e.library n = [])
    {accept : List Signal → Bool} {rest : List Signal} (hhas : ∀ s ∈ rest, e.library.Has s)
    {outcome : Outcome (Recorded σ)}
    (hrun : Engine.offerAll e t accept rest offers c = .ok outcome) :
    ∃ later order' memo', later <+: rest ∧ (later = rest ∨ accept outcome.offers = false) ∧
      Progress e.library t leaves memo₀ (offered ++ later) outcome.offers order'
        ⟨memo', outcome.target⟩ := by
  induction rest generalizing offered offers order c with
  | nil =>
    obtain rfl := Except.ok.inj hrun
    refine ⟨[], order, c.memo, List.prefix_rfl, Or.inl rfl, ?_⟩
    rw [List.append_nil]
    exact h
  | cons candidate rest ih =>
    unfold Engine.offerAll at hrun
    cases hadd : Copy.addCone e.library c candidate.node with
    | error f =>
      rw [hadd] at hrun
      cases hrun
    | ok r =>
      obtain ⟨s, c'⟩ := r
      obtain ⟨order₁, h₁⟩ := h.addCone hlibrary hmemo (hhas candidate List.mem_cons_self) hadd
      rw [hadd] at hrun
      dsimp only at hrun
      split_ifs at hrun with haccept
      · obtain ⟨later, order', memo', hprefix, hstop, h'⟩ :=
          ih h₁ (fun s hs => hhas s (List.mem_cons_of_mem _ hs)) hrun
        rw [List.append_assoc, List.singleton_append] at h'
        refine ⟨candidate :: later, order', memo', ?_, ?_, h'⟩
        · exact List.cons_prefix_cons.mpr ⟨rfl, hprefix⟩
        · exact hstop.imp_left (congrArg (candidate :: ·))
      · obtain rfl := Except.ok.inj hrun
        refine ⟨[candidate], order₁, c'.memo, ?_, Or.inr (Bool.eq_false_of_not_eq_true haccept), h₁⟩
        exact List.cons_prefix_cons.mpr ⟨rfl, List.nil_prefix⟩

end Run

/-- How the offers of a query over the leaves came about: the calls built the gates in the cones of
the offered library signals, each once and in the given order. -/
structure Materialised (e : Engine) (t : Transform) (leaves offered offers : List Signal)
    (calls : List Call) (order : List Nat) (memo : Memo) : Prop where
  constant : memo[0]? = some (.constant false)
  input : ∀ (i : Fin 4) (n : Nat), e.library.inputs[i.val]? = some n →
    memo[n]? = some (leaf t leaves i)
  nodup : order.Nodup
  mem_order : ∀ n, n ∈ order ↔
    (e.library.kindAt? n).isSome = true ∧ ∃ s ∈ offered, e.library.InCone s.node n
  builds : List.Forall₂ (fun n call => call.Builds e.library memo n) order calls
  sourced : Sourced leaves calls
  offers : List.Forall₂ (IsOffer memo t) offered offers

theorem Materialised.count_eq {e : Engine} {t : Transform} {leaves offered offers : List Signal}
    {calls : List Call} {order : List Nat} {memo : Memo}
    (h : e.Materialised t leaves offered offers calls order memo) (kind : GateKind) :
    Call.count kind calls = (e.library.gatesBelow kind offered).ncard :=
  Call.count_eq_ncard h.builds h.nodup h.mem_order kind

theorem comesFrom_leaf (t : Transform) (leaves : List Signal) (i : Fin 4) :
    ComesFrom leaves [] (leaf t leaves i) := by
  refine ⟨_, _, rfl, ?_⟩
  cases hread : leaves[(t.source i).val]? with
  | none => exact Or.inl rfl
  | some s => exact Or.inr (Or.inl (List.mem_of_getElem? hread))

theorem Seeded.comesFrom {library : Xag} {t : Transform} {leaves : List Signal} {memo : Memo}
    (h : Seeded library (leaf t leaves) memo) {n : Nat} {s : Signal} (hs : memo[n]? = some s) :
    ComesFrom leaves [] s := by
  rcases h.entry n s hs with ⟨-, rfl⟩ | ⟨i, -, rfl⟩
  · exact ⟨_, false, rfl, Or.inl rfl⟩
  · exact comesFrom_leaf t leaves i

theorem Progress.materialised {σ : Type} {e : Engine} {t : Transform} {leaves : List Signal}
    {memo₀ : Memo} {offered offers : List Signal} {order : List Nat} {c : Copy (Recorded σ)}
    (h : Progress e.library t leaves memo₀ offered offers order c)
    (hseeded : Seeded e.library (leaf t leaves) memo₀) (hlibrary : e.library.WellFormed) :
    e.Materialised t leaves offered offers c.target.calls order c.memo where
  constant := h.traced.keeps _ _ (hseeded.constant hlibrary)
  input _ _ hi := h.traced.keeps _ _ (hseeded.input hlibrary hi)
  nodup := h.traced.nodup
  mem_order n := by
    constructor
    · intro hn
      exact ⟨Call.isSome_kindAt?_of_builds h.traced.builds n hn, ((h.mem_order n).mp hn).2⟩
    · rintro ⟨hkind, hcone⟩
      refine (h.mem_order n).mpr ⟨?_, hcone⟩
      by_contra hn
      rw [hseeded.kindAt? hlibrary (Bool.eq_true_of_not_eq_false hn)] at hkind
      cases hkind
  builds := h.traced.builds
  sourced := h.traced.sourced
  offers := h.offers

/-- The plain builder has grown from `b` by one node for each AND on record and by three for each
XOR. -/
structure Grown (b : Aig.Builder) (r : Recorded Aig.Builder) : Prop where
  plain : r.target.Plain
  size : r.target.size = b.size + Call.count .and r.calls + 3 * Call.count .xor r.calls

theorem Grown.request {b g : Aig.Builder} {r : Recorded Aig.Builder} (h : Grown b r)
    {kind : GateKind} {x y s : Signal} (hrequest : kind.request? r.target x y = .ok (s, g)) :
    Grown b ⟨g, r.calls ++ [⟨kind, x, y, s⟩]⟩ := by
  have hsize := h.size
  cases kind with
  | and =>
    obtain ⟨s', g', hadd, hplain, hgrows⟩ := h.plain.addAnd x y
    obtain ⟨-, rfl⟩ := Prod.mk.inj (Except.ok.inj (hadd.symm.trans hrequest))
    refine ⟨hplain, ?_⟩
    simp only [Call.count_concat, if_true, reduceCtorEq, if_false]
    omega
  | xor =>
    obtain ⟨s', g', hadd, hplain, hgrows⟩ := h.plain.addXor x y
    obtain ⟨-, rfl⟩ := Prod.mk.inj (Except.ok.inj (hadd.symm.trans hrequest))
    refine ⟨hplain, ?_⟩
    simp only [Call.count_concat, if_true, reduceCtorEq, if_false]
    omega

section Query

variable {e : Engine} {function : Table} {f : Table4}

theorem WellFormed.query_eq {σ : Type} [Network σ] (h : e.WellFormed)
    (hf : function.toTable4? = some f) (leaves : List Signal) (accept : List Signal → Bool)
    (target : σ) :
    ∃ memo, Seeded e.library (leaf (ClassTable.standard.lookup f).transform leaves) memo ∧
      e.query function leaves accept target =
        offerAll e (ClassTable.standard.lookup f).transform accept (e.candidates f) []
          ⟨memo, target⟩ := by
  rw [ClassTable.lookup_standard, candidates_eq]
  obtain ⟨memo, hseed, hseeded⟩ := h.seed_ok (canonical f).transform leaves
  refine ⟨memo, hseeded, ?_⟩
  unfold query
  rw [hf]
  dsimp only
  rw [ClassTable.lookup_standard]
  unfold ClassIndex.get?
  cases e.index.signals (canonical f).representative with
  | nil => rfl
  | cons candidate rest =>
    dsimp only
    rw [hseed]

theorem WellFormed.has_candidate (h : e.WellFormed) {s : Signal} (hs : s ∈ e.candidates f) :
    e.library.Has s := by
  have hget : e.index.get? (ClassTable.standard.representative f) = some (e.candidates f) :=
    ClassIndex.get?_eq_some_iff.mpr ⟨rfl, List.ne_nil_of_mem hs⟩
  exact (ClassIndex.computes_of_get? h.library h.index hget hs).1

/-- The candidates that were offered, the first ones. -/
def offered {σ : Type} (e : Engine) (f : Table4) (outcome : Outcome σ) : List Signal :=
  (e.candidates f).take outcome.offers.length

/-- A query that succeeds has requested the gates of the candidates that it offered, and offered all
of them unless it was told to stop. -/
theorem WellFormed.query_materialised {σ : Type} [Network σ] (h : e.WellFormed)
    (hf : function.toTable4? = some f) {leaves : List Signal} {accept : List Signal → Bool}
    {target : σ} {outcome : Outcome σ}
    (hquery : e.query function leaves accept target = .ok outcome) :
    (e.offered f outcome = e.candidates f ∨ accept outcome.offers = false) ∧
      ∃ calls order memo, e.Requests function leaves accept target outcome calls ∧
        e.Materialised (ClassTable.standard.lookup f).transform leaves (e.offered f outcome)
          outcome.offers calls order memo := by
  obtain ⟨calls, hcalls⟩ := exists_requests hquery
  obtain ⟨memo₀, hseeded, hrun⟩ :=
    h.query_eq hf leaves accept (⟨target, []⟩ : Recorded σ)
  rw [hcalls.recorded []] at hrun
  -- the constant and the inputs have no fanins, so the walks go around no gate
  have hmemo : ∀ n, memo₀.contains n = true → Copy.faninsOf e.library n = [] :=
    fun n hn => Copy.faninsOf_eq_nil (hseeded.kindAt? h.library hn)
  have hstart : Progress e.library (ClassTable.standard.lookup f).transform leaves memo₀ [] [] []
      ⟨memo₀, (⟨target, []⟩ : Recorded σ)⟩ :=
    ⟨.start fun n s => hseeded.comesFrom, by simp, .nil⟩
  obtain ⟨offered, order, memo, hprefix, hstop, hprogress⟩ :=
    hstart.offerAll h.library hmemo (fun s => h.has_candidate) hrun.symm
  obtain rfl : offered = e.offered f outcome := by
    have hlength : offered.length = outcome.offers.length := hprogress.offers.length_eq
    rw [Engine.offered, ← hlength]
    exact List.prefix_iff_eq_take.mp hprefix
  exact ⟨hstop, calls, order, memo, hcalls, hprogress.materialised hseeded h.library⟩

theorem WellFormed.exists_outcome {σ : Type} [Network σ] [LawfulNetwork σ] (h : e.WellFormed)
    {target : σ} (htarget : LawfulNetwork.Reachable target) {leaves : List Signal}
    (hleaves : ∀ s ∈ leaves, LawfulNetwork.Has target s) (function : Table)
    (accept : List Signal → Bool) :
    ∃ outcome, e.query function leaves accept target = .ok outcome := by
  obtain ⟨outcome, hquery, -⟩ := h.query_ok htarget hleaves function accept
  exact ⟨outcome, hquery⟩

theorem Requests.size_eq {b : Aig.Builder} (hb : b.Plain) {leaves : List Signal}
    {accept : List Signal → Bool} {outcome : Outcome Aig.Builder} {calls : List Call}
    (h : e.Requests function leaves accept b outcome calls) :
    outcome.target.size = b.size + Call.count .and calls + 3 * Call.count .xor calls := by
  have hkeeps : ∀ (kind : GateKind) (r : Recorded Aig.Builder) (x y s : Signal)
      (r' : Recorded Aig.Builder), Grown b r → kind.request? r x y = .ok (s, r') → Grown b r' := by
    intro kind r x y s r' hgrown hrequest
    obtain ⟨g, hg, rfl⟩ := Recorded.exists_of_request? hrequest
    exact hgrown.request hg
  exact (query_keeps hkeeps (h.recorded []) ⟨hb, rfl⟩).size

end Query

/-- Whatever the target, the function and the answers to the offers are, a query goes through the
candidates until it is told to stop. It requests each gate in the cones of those that it offered
once, over leaves, the constant and results of its own requests. On the targets that operations lead
to it does so without a fault, and a plain builder grows accordingly. -/
theorem query_requests_each_gate_once {verbose : Bool} {words : List UInt32} {e : Engine}
    (h : ofWords verbose words = .ok e) {function : Table} (hinputs : function.inputs ≤ 4)
    (leaves : List Signal) (accept : List Signal → Bool) :
    ∃ f, function.toTable4? = some f ∧
      (∀ {σ : Type} [Network σ] (target : σ) (outcome : Outcome σ),
        e.query function leaves accept target = .ok outcome →
        (e.offered f outcome = e.candidates f ∨ accept outcome.offers = false) ∧
          ∃ calls order memo, e.Requests function leaves accept target outcome calls ∧
            e.Materialised (ClassTable.standard.lookup f).transform leaves (e.offered f outcome)
              outcome.offers calls order memo ∧
            ∀ kind, Call.count kind calls =
              (e.library.gatesBelow kind (e.offered f outcome)).ncard) ∧
      (∀ g : Xag, g.Reachable → (∀ s ∈ leaves, g.Has s) →
        ∃ outcome, e.query function leaves accept g = .ok outcome) ∧
      (∀ b : Aig.Builder, b.Reachable → (∀ s ∈ leaves, b.Has s) →
        ∃ outcome, e.query function leaves accept b = .ok outcome ∧
          (b.folding = false → b.hashing = false →
            outcome.target.size = b.size +
              (e.library.gatesBelow .and (e.offered f outcome)).ncard +
              3 * (e.library.gatesBelow .xor (e.offered f outcome)).ncard)) := by
  have hengine := wellFormed_of_ofWords h
  obtain ⟨f, hf⟩ : ∃ f, function.toTable4? = some f := ⟨_, function.toTable4?_eq_some hinputs⟩
  refine ⟨f, hf, ?_, ?_, ?_⟩
  · intro σ _ target outcome hquery
    obtain ⟨hstop, calls, order, memo, hcalls, hgates⟩ := hengine.query_materialised hf hquery
    exact ⟨hstop, calls, order, memo, hcalls, hgates, hgates.count_eq⟩
  · intro g hg hleaves
    exact hengine.exists_outcome hg hleaves function accept
  · intro b hb hleaves
    obtain ⟨outcome, hquery⟩ : ∃ outcome, e.query function leaves accept b = .ok outcome :=
      hengine.exists_outcome hb hleaves function accept
    refine ⟨outcome, hquery, fun hfolding hhashing => ?_⟩
    obtain ⟨-, calls, order, memo, hcalls, hgates⟩ := hengine.query_materialised hf hquery
    rw [hcalls.size_eq ⟨hfolding, hhashing⟩, hgates.count_eq, hgates.count_eq]

section TwoCircuits

open ClassIndex (twoCircuits nor)

theorem candidates_nor {index : ClassIndex}
    (hget : index.get? nor = some [⟨5, false⟩, ⟨8, true⟩]) :
    (ofTwoCircuits index).candidates nor = [⟨5, false⟩, ⟨8, true⟩] := by
  have hsignals : index.signals nor = [⟨5, false⟩, ⟨8, true⟩] :=
    (ClassIndex.get?_eq_some_iff.mp hget).1
  rw [candidates, ClassTable.representative, ClassIndex.lookup_nor]
  exact hsignals

/-- Gate 5 is in the cones of both circuits. -/
theorem gatesBelow_two_circuits (index : ClassIndex) :
    (ofTwoCircuits index).library.gatesBelow .and [⟨5, false⟩, ⟨8, true⟩] = {5, 7} ∧
      (ofTwoCircuits index).library.gatesBelow .xor [⟨5, false⟩, ⟨8, true⟩] = {6, 8} := by
  have hnodes : (ofTwoCircuits index).library.nodes = _ := ClassIndex.nodes_twoCircuits
  generalize (ofTwoCircuits index).library = library at hnodes
  have hsize : ∀ {n : Nat} {kind : GateKind}, library.kindAt? n = some kind → n < 9 := by
    intro n kind hn
    obtain ⟨node, hnode, -⟩ := Option.bind_eq_some_iff.mp hn
    have hlt := (Array.getElem?_eq_some_iff.mp hnode).1
    rwa [hnodes] at hlt
  have hands : ∀ n < 9, library.kindAt? n = some .and → n = 5 ∨ n = 7 := by
    unfold Xag.kindAt?
    rw [hnodes]
    decide
  have hxors : ∀ n < 9, library.kindAt? n = some .xor → n = 6 ∨ n = 8 := by
    unfold Xag.kindAt?
    rw [hnodes]
    decide
  have hlast : library.nodes[8]? = some (.xor ⟨6, false⟩ ⟨7, false⟩) := by simp [hnodes]
  have hsix : library.InCone 8 6 := .single ⟨_, hlast, ⟨6, false⟩, by simp [Xag.Node.fanins], rfl⟩
  have hseven : library.InCone 8 7 := .single ⟨_, hlast, ⟨7, false⟩, by simp [Xag.Node.fanins], rfl⟩
  constructor
  · ext n
    constructor
    · rintro ⟨hn, -⟩
      exact hands n (hsize hn) hn
    · rintro (rfl | rfl)
      · exact ⟨by simp [Xag.kindAt?, hnodes, Xag.Node.kind?], ⟨5, false⟩, by simp, .refl⟩
      · exact ⟨by simp [Xag.kindAt?, hnodes, Xag.Node.kind?], ⟨8, true⟩, by simp, hseven⟩
  · ext n
    constructor
    · rintro ⟨hn, -⟩
      exact hxors n (hsize hn) hn
    · rintro (rfl | rfl)
      · exact ⟨by simp [Xag.kindAt?, hnodes, Xag.Node.kind?], ⟨8, true⟩, by simp, hsix⟩
      · exact ⟨by simp [Xag.kindAt?, hnodes, Xag.Node.kind?], ⟨8, true⟩, by simp, .refl⟩

/-- Both circuits are requested once for `x ∧ ¬y`, in a plain builder of two inputs. -/
theorem query_requests_two_circuits :
    ∃ index, ofWords false twoCircuits.toWords = .ok (ofTwoCircuits index) ∧
      ∃ outcome calls, (ofTwoCircuits index).query (.ofTable4 nor) twoLeaves (fun _ => true)
          (((Aig.Builder.new "target" false false).addInput "x").2.addInput "y").2 = .ok outcome ∧
        outcome.offers = [⟨3, false⟩, ⟨10, false⟩] ∧ outcome.target.size = 11 ∧
        (ofTwoCircuits index).offered nor outcome = [⟨5, false⟩, ⟨8, true⟩] ∧
        (ofTwoCircuits index).Requests (.ofTable4 nor) twoLeaves (fun _ => true)
          (((Aig.Builder.new "target" false false).addInput "x").2.addInput "y").2 outcome calls ∧
        Call.count .and calls = 2 ∧ Call.count .xor calls = 2 := by
  obtain ⟨index, he, hget⟩ := exists_ofWords_two_circuits
  have hinputs : (Table.ofTable4 nor).inputs ≤ 4 := Nat.le_refl 4
  obtain ⟨f, hf, hrequests, -, hbuilder⟩ :=
    query_requests_each_gate_once he hinputs twoLeaves fun _ => true
  obtain rfl := Option.some.inj (hf.symm.trans (Table.toTable4?_ofTable4 nor))
  obtain ⟨outcome, hquery, hsize⟩ :=
    hbuilder _ (.addInput (.addInput (.new "target" false false) "x") "y")
      (by simp [twoLeaves, Aig.Builder.Has, Aig.Builder.new, Aig.Builder.addInput])
  obtain ⟨hall, calls, -, -, hcalls, -, hcount⟩ := hrequests _ outcome hquery
  have hoffered := (hall.resolve_right Bool.noConfusion).trans (candidates_nor hget)
  obtain ⟨hands, hxors⟩ := gatesBelow_two_circuits index
  have hrun : ((ofTwoCircuits index).query (.ofTable4 nor) twoLeaves (fun _ => true)
      (((Aig.Builder.new "target" false false).addInput "x").2.addInput "y").2).map (·.offers) =
        .ok [⟨3, false⟩, ⟨10, false⟩] := by
    rw [query_nor hget]
    cbv
  rw [hquery] at hrun
  specialize hsize rfl rfl
  rw [hoffered, hands, hxors, Set.ncard_pair (by decide), Set.ncard_pair (by decide)] at hsize
  refine ⟨index, he, outcome, calls, hquery, Except.ok.inj hrun, hsize, hoffered, hcalls, ?_, ?_⟩
  · rw [hcount, hoffered, hands, Set.ncard_pair (by decide)]
  · rw [hcount, hoffered, hxors, Set.ncard_pair (by decide)]

end TwoCircuits

end Engine
end LogicResynthesis

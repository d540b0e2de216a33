import LogicResynthesis.Proofs.Npn.ClassTable
import LogicResynthesis.Proofs.Resynthesis.Copying
import LogicResynthesis.Proofs.Resynthesis.Engine
import LogicResynthesis.Proofs.TruthTable.Rows
import LogicResynthesis.Resynthesis.Query

/-!
# Offers compute the queried function

An engine built from words answers every query on a lawful target without a
fault. Each offer has the value of the function at the values of the leaves, and
the target has only grown.
-/

namespace LogicResynthesis
namespace Engine

open Npn (ClassTable Transform canonical)
open LawfulNetwork (Reachable Has value GrowsTo)

/-- The memo has the leaf of each of some inputs, and otherwise what it had before. -/
structure Seeds (library : Xag) (leafAt : Fin 4 → Signal) (is : List (Fin 4)) (memo memo' : Memo) :
    Prop where
  keeps : ∀ n, memo.contains n = true → memo'.contains n = true
  contains : ∀ i ∈ is, ∀ n : Nat, library.inputs[i.val]? = some n → memo'.contains n = true
  entry : ∀ (n : Nat) (s : Signal), memo'[n]? = some s →
    memo[n]? = some s ∨ ∃ i : Fin 4, library.inputs[i.val]? = some n ∧ s = leafAt i

theorem Seeds.cons {library : Xag} {leafAt : Fin 4 → Signal} {is : List (Fin 4)}
    {memo memo' : Memo} {i : Fin 4} {n : Nat} (hn : library.inputs[i.val]? = some n)
    (h : Seeds library leafAt is (memo.insert n (leafAt i)) memo') :
    Seeds library leafAt (i :: is) memo memo' where
  keeps k hk := h.keeps k (by rw [Std.HashMap.contains_insert, hk, Bool.or_true])
  contains j hj k hk := by
    rcases List.mem_cons.mp hj with rfl | hj
    · obtain rfl := Option.some.inj (hn.symm.trans hk)
      exact h.keeps n Std.HashMap.contains_insert_self
    · exact h.contains j hj k hk
  entry k s hs := by
    rcases h.entry k s hs with hs | hs
    · rw [Std.HashMap.getElem?_insert] at hs
      split_ifs at hs with hk
      · exact Or.inr ⟨i, (beq_iff_eq.mp hk) ▸ hn, (Option.some.inj hs).symm⟩
      · exact Or.inl hs
    · exact Or.inr hs

theorem exists_seeds {library : Xag} (hinputs : library.inputs.size = 4) (leafAt : Fin 4 → Signal)
    (is : List (Fin 4)) (memo : Memo) :
    ∃ memo', is.foldlM (fun memo (i : Fin 4) => do
        return memo.insert (← library.inputNode? i) (leafAt i)) memo = .ok memo' ∧
      Seeds library leafAt is memo memo' := by
  induction is generalizing memo with
  | nil => exact ⟨memo, rfl, fun _ h => h, by simp, fun _ _ h => Or.inl h⟩
  | cons i is ih =>
    have hi : i.val < library.inputs.size := by
      rw [hinputs]
      exact i.isLt
    have hn : library.inputs[i.val]? = some library.inputs[i.val] := Array.getElem?_eq_getElem hi
    obtain ⟨memo', hrun, hseeds⟩ := ih (memo.insert library.inputs[i.val] (leafAt i))
    refine ⟨memo', ?_, hseeds.cons hn⟩
    rw [List.foldlM_cons]
    simp only [Xag.inputNode?, hn, bind, Except.bind]
    exact hrun

variable {σ : Type} [Network σ] [LawfulNetwork σ]

/-- The value of leaf `k`; a missing leaf is `false`. -/
def leafValue (target : σ) (leaves : List Signal) (a : Nat → Bool) (k : Nat) : Bool :=
  (leaves[k]?.map (value target a)).getD false

/-- The row of the representative that the leaves select. -/
def canonicalLeaves (t : Transform) (target : σ) (leaves : List Signal) (a : Nat → Bool) :
    Assignment :=
  t.canonicalRow ⟨rowOf 4 (leafValue target leaves a), rowOf_lt _⟩

variable {e : Engine} {t : Transform} {leaves : List Signal} {target : σ}

theorem has_leaf (htarget : Reachable target) (hleaves : ∀ s ∈ leaves, Has target s) (i : Fin 4) :
    Has target (leaf t leaves i) := by
  apply LawfulNetwork.has_complementIf
  cases hread : leaves[(t.source i).val]? with
  | none => exact LawfulNetwork.has_constant htarget false
  | some s => exact hleaves s (List.mem_of_getElem? hread)

theorem value_leaf (htarget : Reachable target) (a : Nat → Bool) (i : Fin 4) :
    value target a (leaf t leaves i) = (canonicalLeaves t target leaves a).input i := by
  have hleaf : value target a ((leaves[(t.source i).val]?).getD (.constant false)) =
      leafValue target leaves a (t.source i).val := by
    unfold leafValue
    cases leaves[(t.source i).val]? with
    | none => exact LawfulNetwork.value_constant htarget a false
    | some s => rfl
  rw [canonicalLeaves, Transform.input_canonicalRow, input_rowOf, ← hleaf, leaf,
    LawfulNetwork.value_complementIf]

abbrev libraryInput (t : Transform) (target : σ) (leaves : List Signal) (a : Nat → Bool) :
    Nat → Bool :=
  Xag.rowInputs (canonicalLeaves t target leaves a)

/-- The memo that a query starts with has the constant, the leaves, and nothing else. -/
structure Seeded (library : Xag) (leafAt : Fin 4 → Signal) (memo : Memo) : Prop where
  zero : memo.contains 0 = true
  contains : ∀ (i : Fin 4) (n : Nat), library.inputs[i.val]? = some n → memo.contains n = true
  entry : ∀ (n : Nat) (s : Signal), memo[n]? = some s → n = 0 ∧ s = .constant false ∨
    ∃ i : Fin 4, library.inputs[i.val]? = some n ∧ s = leafAt i

theorem WellFormed.seed_ok (h : e.WellFormed) (t : Transform) (leaves : List Signal) :
    ∃ memo, e.seed t leaves = .ok memo ∧ Seeded e.library (leaf t leaves) memo := by
  obtain ⟨memo, hseed, hseeds⟩ := exists_seeds h.inputs (leaf t leaves) (List.finRange 4)
    ((∅ : Memo).insert 0 (.constant false))
  refine ⟨memo, hseed, hseeds.keeps 0 Std.HashMap.contains_insert_self,
    fun i => hseeds.contains i (List.mem_finRange i), ?_⟩
  intro n s hs
  rcases hseeds.entry n s hs with hs | hs
  · rw [Std.HashMap.getElem?_insert] at hs
    split_ifs at hs with hn
    · exact Or.inl ⟨(beq_iff_eq.mp hn).symm, (Option.some.inj hs).symm⟩
    · simp at hs
  · exact Or.inr hs

theorem WellFormed.contains_of_seeded (h : e.WellFormed) {memo : Memo}
    (hseeded : Seeded e.library (leaf t leaves) memo) (n : Nat) (node : Xag.Node)
    (hnode : e.library.nodes[n]? = some node) (hgate : ¬node.IsGate) : memo.contains n = true := by
  cases node with
  | constant =>
    obtain rfl := h.library.constant_only n hnode
    exact hseeded.zero
  | input i =>
    have hinput := (h.library.input_iff i n).mpr hnode
    have hi := (Array.getElem?_eq_some_iff.mp hinput).1
    rw [h.inputs] at hi
    exact hseeded.contains ⟨i, hi⟩ n hinput
  | and x y => exact absurd trivial hgate
  | xor x y => exact absurd trivial hgate

theorem WellFormed.ready_of_seeded (h : e.WellFormed) (htarget : Reachable target)
    (hleaves : ∀ s ∈ leaves, Has target s) {memo : Memo}
    (hseeded : Seeded e.library (leaf t leaves) memo) :
    Copy.Ready e.library (libraryInput t target leaves) ⟨memo, target⟩ := by
  refine ⟨htarget, h.contains_of_seeded hseeded, ?_, ?_⟩
  · intro n s hs
    rcases hseeded.entry n s hs with ⟨-, rfl⟩ | ⟨i, -, rfl⟩
    · exact LawfulNetwork.has_constant htarget false
    · exact has_leaf htarget hleaves i
  · intro n s hs a
    rcases hseeded.entry n s hs with ⟨rfl, rfl⟩ | ⟨i, hi, rfl⟩
    · rw [Xag.value_of_zero _ h.library.zero rfl]
      exact LawfulNetwork.value_constant htarget a false
    · rw [Xag.value_input _ ((h.library.input_iff i n).mp hi)]
      exact value_leaf htarget a i

/-- The signal exists and has the value `F` for all assignments. -/
def Computes (target : σ) (F : (Nat → Bool) → Bool) (s : Signal) : Prop :=
  Has target s ∧ ∀ a, value target a s = F a

theorem Computes.of_grows {target' : σ} {F : (Nat → Bool) → Bool} {s : Signal}
    (h : Computes target F s) (hgrows : GrowsTo target target') : Computes target' F s := by
  refine ⟨LawfulNetwork.has_of_grows hgrows h.1, fun a => ?_⟩
  rw [LawfulNetwork.value_of_grows hgrows h.1, h.2 a]

section Offers

variable {inputs : (Nat → Bool) → Nat → Bool} {F : (Nat → Bool) → Bool} {c : Copy σ}

theorem WellFormed.offer_ok (h : e.WellFormed) (hc : c.Ready e.library inputs) {candidate : Signal}
    (hhas : e.library.Has candidate)
    (hF : ∀ a, (e.library.value (inputs a) candidate ^^ t.polarity.output) = F a) :
    ∃ s c', Copy.addCone e.library c candidate.node = .ok (s, c') ∧
      c'.Ready e.library inputs ∧ GrowsTo c.target c'.target ∧
      Computes c'.target F (s.complementIf (candidate.negated != t.polarity.output)) := by
  obtain ⟨s, c', hcone, hready, hgrows, hs, hvalue⟩ := hc.addCone h.library hhas
  refine ⟨s, c', hcone, hready, hgrows, LawfulNetwork.has_complementIf hs _, fun a => ?_⟩
  have hcandidate : e.library.value (inputs a) candidate =
      (e.library.value (inputs a) candidate.regular ^^ candidate.negated) :=
    Xag.value_eq_regular (inputs a) candidate
  rw [LawfulNetwork.value_complementIf, hvalue a, ← hF a, hcandidate, Bool.xor_assoc]
  rfl

theorem WellFormed.offerAll_ok (h : e.WellFormed) (accept : List Signal → Bool)
    {candidates : List Signal}
    (hcandidates : ∀ s ∈ candidates, e.library.Has s ∧
      ∀ a, (e.library.value (inputs a) s ^^ t.polarity.output) = F a)
    (hc : c.Ready e.library inputs) {offers : List Signal}
    (hoffers : ∀ s ∈ offers, Computes c.target F s) :
    ∃ outcome, offerAll e t accept candidates offers c = .ok outcome ∧
      Reachable outcome.target ∧ GrowsTo c.target outcome.target ∧
      ∀ s ∈ outcome.offers, Computes outcome.target F s := by
  induction candidates generalizing c offers with
  | nil => exact ⟨_, rfl, hc.reachable, LawfulNetwork.grows_refl _, hoffers⟩
  | cons candidate rest ih =>
    obtain ⟨hhas, hF⟩ := hcandidates candidate List.mem_cons_self
    obtain ⟨s, c', hcone, hready, hgrows, hoffer⟩ := h.offer_ok hc hhas hF
    have hoffers' : ∀ s' ∈ offers ++ [s.complementIf (candidate.negated != t.polarity.output)],
        Computes c'.target F s' := by
      intro s' hs'
      rcases List.mem_append.mp hs' with hs' | hs'
      · exact (hoffers s' hs').of_grows hgrows
      · rw [List.mem_singleton.mp hs']
        exact hoffer
    unfold offerAll
    rw [hcone]
    dsimp only
    split_ifs
    · obtain ⟨outcome, hrun, hreachable, hgrows', hall⟩ :=
        ih (fun s' hs' => hcandidates s' (List.mem_cons_of_mem _ hs')) hready hoffers'
      exact ⟨outcome, hrun, hreachable, LawfulNetwork.grows_trans hgrows hgrows', hall⟩
    · exact ⟨_, rfl, hready.reachable, hgrows, hoffers'⟩

end Offers

theorem WellFormed.row_of_get? (h : e.WellFormed) {f : Table4} {candidates : List Signal}
    (hget : e.index.get? (canonical f).representative = some candidates) {s : Signal}
    (hs : s ∈ candidates) (a : Nat → Bool) :
    (e.library.value (libraryInput (canonical f).transform target leaves a) s ^^
        (canonical f).transform.polarity.output) =
      f.row ⟨rowOf 4 (leafValue target leaves a), rowOf_lt _⟩ := by
  obtain ⟨-, hvalue⟩ := ClassIndex.computes_of_get? h.library h.index hget hs
  conv_rhs => rw [← Npn.unapply_canonical f, Transform.row_unapply]
  rw [libraryInput, hvalue, canonicalLeaves]

/-- The target has only grown, so that its signals have kept their values, and each offer has the
value of the function on the row that the values of the leaves select. -/
structure Outcome.Sound (function : Table) (leaves : List Signal) (target : σ)
    (outcome : Outcome σ) : Prop where
  reachable : Reachable outcome.target
  grows : GrowsTo target outcome.target
  keeps : ∀ s, Has target s → ∀ a, value outcome.target a s = value target a s
  has : ∀ s ∈ outcome.offers, Has outcome.target s
  value : ∀ s ∈ outcome.offers, ∀ a,
    value outcome.target a s = function.row (rowOf function.inputs (leafValue target leaves a))

theorem Outcome.Sound.of_computes {function : Table} {outcome : Outcome σ}
    (hreachable : Reachable outcome.target) (hgrows : GrowsTo target outcome.target)
    (hoffers : ∀ s ∈ outcome.offers, Computes outcome.target
      (fun a => function.row (rowOf function.inputs (leafValue target leaves a))) s) :
    outcome.Sound function leaves target where
  reachable := hreachable
  grows := hgrows
  keeps _ hs a := LawfulNetwork.value_of_grows hgrows hs a
  has s hs := (hoffers s hs).1
  value s hs := (hoffers s hs).2

theorem WellFormed.query_ok (h : e.WellFormed) (htarget : Reachable target)
    (hleaves : ∀ s ∈ leaves, Has target s) (function : Table) (accept : List Signal → Bool) :
    ∃ outcome, e.query function leaves accept target = .ok outcome ∧
      outcome.Sound function leaves target := by
  have hnone : Outcome.Sound function leaves target ⟨[], target⟩ :=
    .of_computes htarget (LawfulNetwork.grows_refl target) (by simp)
  unfold query
  cases hwide : function.toTable4? with
  | none => exact ⟨_, rfl, hnone⟩
  | some f =>
    dsimp only
    rw [ClassTable.lookup_standard]
    cases hget : e.index.get? (canonical f).representative with
    | none => exact ⟨_, rfl, hnone⟩
    | some candidates =>
      obtain ⟨memo, hseed, hseeded⟩ := h.seed_ok (canonical f).transform leaves
      have hready := h.ready_of_seeded htarget hleaves hseeded
      have hcandidates : ∀ s ∈ candidates, e.library.Has s ∧ ∀ a,
          (e.library.value (libraryInput (canonical f).transform target leaves a) s ^^
            (canonical f).transform.polarity.output) =
          function.row (rowOf function.inputs (leafValue target leaves a)) := by
        intro s hs
        refine ⟨(ClassIndex.computes_of_get? h.library h.index hget hs).1, fun a => ?_⟩
        rw [h.row_of_get? hget hs a, row_toTable4 hwide]
      have hstart : ∀ s ∈ ([] : List Signal), Computes target
          (fun a => function.row (rowOf function.inputs (leafValue target leaves a))) s := by simp
      obtain ⟨outcome, hrun, hreachable, hgrows, hoffers⟩ :=
        h.offerAll_ok accept hcandidates hready hstart
      dsimp only
      rw [hseed]
      exact ⟨outcome, hrun, .of_computes hreachable hgrows hoffers⟩

theorem WellFormed.sound_of_query (h : e.WellFormed) (htarget : Reachable target)
    (hleaves : ∀ s ∈ leaves, Has target s) {function : Table} {accept : List Signal → Bool}
    {outcome : Outcome σ} (hquery : e.query function leaves accept target = .ok outcome) :
    outcome.Sound function leaves target := by
  obtain ⟨outcome', hquery', hsound⟩ := h.query_ok htarget hleaves function accept
  obtain rfl := Except.ok.inj (hquery.symm.trans hquery')
  exact hsound

/-- Queries are sound on all XAGs and netlist builders that their operations lead to, whatever the
library, the function, the leaves and the answers to the offers are. -/
theorem query_sound {verbose : Bool} {words : List UInt32} {e : Engine}
    (h : ofWords verbose words = .ok e) (function : Table) (leaves : List Signal)
    (accept : List Signal → Bool) :
    (∀ g : Xag, g.Reachable → (∀ s ∈ leaves, g.Has s) →
      ∃ outcome, e.query function leaves accept g = .ok outcome ∧
        outcome.Sound function leaves g) ∧
    (∀ b : Aig.Builder, b.Reachable → (∀ s ∈ leaves, b.Has s) →
      ∃ outcome, e.query function leaves accept b = .ok outcome ∧
        outcome.Sound function leaves b ∧
        ∀ s ∈ outcome.offers, ∀ a, outcome.target.netlist.value? a s =
          .ok (function.row (rowOf function.inputs (leafValue b leaves a)))) := by
  have hengine := wellFormed_of_ofWords h
  constructor
  · intro g hg hleaves
    exact hengine.query_ok hg hleaves function accept
  · intro b hb hleaves
    have hanswer : ∃ outcome, e.query function leaves accept b = .ok outcome ∧
        outcome.Sound function leaves b := hengine.query_ok hb hleaves function accept
    obtain ⟨outcome, hquery, hsound⟩ := hanswer
    refine ⟨outcome, hquery, hsound, fun s hs a => ?_⟩
    rw [Aig.Builder.Reachable.value?_eq hsound.reachable (hsound.has s hs)]
    exact congrArg Except.ok (hsound.value s hs a)

section TwoCircuits

open ClassIndex (twoCircuits nor)

/-- Without a transform the leaves drive the library inputs in order. -/
theorem leaf_identity (leaves : List Signal) (i : Fin 4) :
    leaf Transform.identity leaves i = (leaves[i.val]?).getD (.constant false) := by
  rw [leaf, Transform.source_identity]
  simp [Transform.identity, Npn.Polarity.inputNegated, Signal.complementIf]

theorem query_nor {σ : Type} [Network σ] {index : ClassIndex}
    (hget : index.get? nor = some [⟨5, false⟩, ⟨8, true⟩]) (leaves : List Signal)
    (accept : List Signal → Bool) (target : σ) :
    (ofTwoCircuits index).query (.ofTable4 nor) leaves accept target =
      (do
        let memo ← (List.finRange 4).foldlM
          (fun memo (i : Fin 4) => do
            return memo.insert (← (ofTwoCircuits index).library.inputNode? i)
              (leaves[i.val]?.getD (.constant false)))
          ((∅ : Memo).insert 0 (.constant false))
        offerAll (ofTwoCircuits index) Transform.identity accept [⟨5, false⟩, ⟨8, true⟩] []
          ⟨memo, target⟩) := by
  have hindex : (ofTwoCircuits index).index = index := rfl
  unfold query
  rw [Table.toTable4?_ofTable4]
  dsimp only
  rw [ClassIndex.lookup_nor, hindex, hget]
  dsimp only
  simp only [← leaf_identity]
  change _ = (ofTwoCircuits index).seed Transform.identity leaves >>= _
  cases (ofTwoCircuits index).seed Transform.identity leaves <;> rfl

theorem outcome_two_circuits {index : ClassIndex}
    (hget : index.get? nor = some [⟨5, false⟩, ⟨8, true⟩]) {outcome : Outcome Xag}
    (hquery : (ofTwoCircuits index).query (.ofTable4 nor) twoLeaves (fun _ => true)
      Xag.empty.addInput.2.addInput.2 = .ok outcome) :
    outcome.offers = [⟨3, false⟩, ⟨6, false⟩] ∧
      outcome.target.nodes = #[.constant, .input 0, .input 1, .and ⟨1, false⟩ ⟨2, true⟩,
        .xor ⟨1, false⟩ ⟨2, false⟩, .and ⟨3, true⟩ ⟨4, false⟩, .xor ⟨4, false⟩ ⟨5, false⟩] := by
  have hrun : ((ofTwoCircuits index).query (.ofTable4 nor) twoLeaves (fun _ => true)
      Xag.empty.addInput.2.addInput.2).map (fun o => (o.offers, o.target.nodes)) =
      .ok ([⟨3, false⟩, ⟨6, false⟩], #[.constant, .input 0, .input 1, .and ⟨1, false⟩ ⟨2, true⟩,
        .xor ⟨1, false⟩ ⟨2, false⟩, .and ⟨3, true⟩ ⟨4, false⟩, .xor ⟨4, false⟩ ⟨5, false⟩]) := by
    rw [query_nor hget]
    cbv
  rw [hquery] at hrun
  exact Prod.mk.inj (Except.ok.inj hrun)

/-- Both circuits are offered for `x ∧ ¬y`. The second one uses gate 3 of the first one in the
graph; in the builder one of the gates for its last exclusive or folds. -/
theorem query_sound_two_circuits :
    ∃ index, ofWords false twoCircuits.toWords = .ok (ofTwoCircuits index) ∧
      (∃ outcome, (ofTwoCircuits index).query (.ofTable4 nor) twoLeaves (fun _ => true)
          Xag.empty.addInput.2.addInput.2 = .ok outcome ∧
        outcome.offers = [⟨3, false⟩, ⟨6, false⟩] ∧
        outcome.target.nodes = #[.constant, .input 0, .input 1, .and ⟨1, false⟩ ⟨2, true⟩,
          .xor ⟨1, false⟩ ⟨2, false⟩, .and ⟨3, true⟩ ⟨4, false⟩, .xor ⟨4, false⟩ ⟨5, false⟩] ∧
        outcome.Sound (.ofTable4 nor) twoLeaves Xag.empty.addInput.2.addInput.2) ∧
      ∃ outcome, (ofTwoCircuits index).query (.ofTable4 nor) twoLeaves (fun _ => true)
          (((Aig.Builder.new "target" true false).addInput "x").2.addInput "y").2 = .ok outcome ∧
        outcome.offers = [⟨3, false⟩, ⟨9, false⟩] ∧ outcome.target.size = 10 ∧
        outcome.Sound (.ofTable4 nor) twoLeaves
          (((Aig.Builder.new "target" true false).addInput "x").2.addInput "y").2 := by
  obtain ⟨index, he, hget⟩ := exists_ofWords_two_circuits
  obtain ⟨hxag, hbuilder⟩ := query_sound he (.ofTable4 nor) twoLeaves fun _ => true
  refine ⟨index, he, ?_, ?_⟩
  · obtain ⟨outcome, hquery, hsound⟩ := hxag _ (.addInput (.addInput .empty))
      (by simp [twoLeaves, Xag.Has, Xag.empty, Xag.addInput])
    obtain ⟨hoffers, hnodes⟩ := outcome_two_circuits hget hquery
    exact ⟨outcome, hquery, hoffers, hnodes, hsound⟩
  · obtain ⟨outcome, hquery, hsound, -⟩ :=
      hbuilder _ (.addInput (.addInput (.new "target" true false) "x") "y")
        (by simp [twoLeaves, Aig.Builder.Has, Aig.Builder.new, Aig.Builder.addInput])
    have hrun : ((ofTwoCircuits index).query (.ofTable4 nor) twoLeaves (fun _ => true)
        (((Aig.Builder.new "target" true false).addInput "x").2.addInput "y").2).map
          (fun o => (o.offers, o.target.size)) = .ok ([⟨3, false⟩, ⟨9, false⟩], 10) := by
      rw [query_nor hget]
      cbv
    rw [hquery] at hrun
    obtain ⟨hoffers, hsize⟩ := Prod.mk.inj (Except.ok.inj hrun)
    exact ⟨outcome, hquery, hoffers, hsize, hsound⟩

end TwoCircuits

end Engine
end LogicResynthesis

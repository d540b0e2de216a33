import LogicResynthesis.Proofs.Resynthesis.Sharing

/-!
# No words lead to a fault

Words are refused, or they make an engine whose queries give no fault. What is
read of them lies within the words, and the numbers that come up on the way fit
in 32 bits. The nodes that an engine names are in its library, so a query finds
all fanins, inputs and copies that it needs, whatever the target's options, the
function, the leaves and the answers to the offers are.
-/

namespace LogicResynthesis

/-- The words are those of the parts of the list, and none is left over. Positions and node numbers
fit in 32 bits, and every gate is asked for over signals that the graph has. -/
structure IndexList.WithinBounds (words : List UInt32) (l : IndexList) : Prop where
  words_eq : words = l.toWords
  length_lt : words.length < 2 ^ 32
  nodes_lt : 1 + l.inputs + l.gates.length < 2 ^ 32
  reachable : (l.decodeInto Xag.empty).2.Reachable
  size_le : (l.decodeInto Xag.empty).2.size ≤ 1 + l.inputs + l.gates.length

theorem IndexList.withinBounds {words : List UInt32} {l : IndexList} (h : ofWords words = .ok l) :
    WithinBounds words l where
  words_eq := (toWords_of_ofWords h).symm
  length_lt := by
    rw [← toWords_of_ofWords h, length_toWords]
    have hgates := l.gates_lt
    have houtputs := l.outputs_lt
    omega
  nodes_lt := by
    have hinputs := l.inputs_lt
    have hgates := l.gates_lt
    omega
  reachable := (reachable_decodeInto .empty l).1
  size_le := l.size_decodeInto_le Xag.empty

theorem Header.words_lt (h : UInt32) : words h < 2 ^ 32 := by
  have hlt := h.toNat_lt
  unfold words gates outputs
  omega

namespace Engine

theorem Refused.ne_fault {words : List UInt32} {error : EngineError} (h : Refused words error)
    (f : Fault) : error ≠ .fault f := by
  cases h <;> rintro ⟨⟩

theorem Refused.of_undefined {words : List UInt32} {i d : Nat} {w : UInt32}
    (h : Refused words (.decode (.undefinedLiteral i w d))) :
    words[i]? = some w ∧ d ≤ Literal.node w := by
  cases h with
  | misshapen h => cases h
  | undefined _ h =>
    cases h with
    | literal _ _ hw hundefined _ => exact ⟨hw, hundefined⟩

theorem refused_or_made (verbose : Bool) (words : List UInt32) :
    (∃ error, Refused words error ∧ ofWords verbose words = .error error) ∨
      ∃ e, ofWords verbose words = .ok e := by
  rcases refused_or_accepted words with ⟨error, h⟩ | ⟨h, haccepted, hinputs⟩
  · exact .inl ⟨error, h, h.ofWords_eq verbose⟩
  · exact .inr (ofWords_of_accepted verbose haccepted hinputs)

theorem refused_of_ofWords {verbose : Bool} {words : List UInt32} {error : EngineError}
    (h : ofWords verbose words = .error error) : Refused words error := by
  rcases refused_or_made verbose words with ⟨error', hrefused, herror⟩ | ⟨e, he⟩
  · obtain rfl := Except.error.inj (h.symm.trans herror)
    exact hrefused
  · cases h.symm.trans he

/-- There are four inputs, and inputs, fanins and indexed signals are nodes of the library, fanins
earlier ones. -/
structure InRange (e : Engine) : Prop where
  inputs : e.library.inputs.size = 4
  input_lt : ∀ i n : Nat, e.library.inputs[i]? = some n → n < e.library.size
  fanin_lt : ∀ (n : Nat) (node : Xag.Node), e.library.nodes[n]? = some node →
    ∀ s ∈ node.fanins, s.node < n
  signal_lt : ∀ r, ∀ s ∈ e.index.signals r, s.node < e.library.size

theorem WellFormed.inRange {e : Engine} (h : e.WellFormed) : e.InRange where
  inputs := h.inputs
  input_lt i n hi := (Array.getElem?_eq_some_iff.mp ((h.library.input_iff i n).mp hi)).1
  fanin_lt := h.library.ordered
  signal_lt r s hs := by
    have hget : e.index.get? r = some (e.index.signals r) :=
      ClassIndex.get?_eq_some_iff.mpr ⟨rfl, List.ne_nil_of_mem hs⟩
    exact (ClassIndex.computes_of_get? h.library h.index hget hs).1

theorem WellFormed.answers_query {σ : Type} [Network σ] [LawfulNetwork σ] {e : Engine}
    (h : e.WellFormed) {target : σ} (htarget : LawfulNetwork.Reachable target)
    {leaves : List Signal} (hleaves : ∀ s ∈ leaves, LawfulNetwork.Has target s) (function : Table)
    (accept : List Signal → Bool) :
    ∃ outcome, e.query function leaves accept target = .ok outcome ∧
      LawfulNetwork.Reachable outcome.target ∧
      ∀ s ∈ outcome.offers, LawfulNetwork.Has outcome.target s := by
  obtain ⟨outcome, hquery, hsound⟩ := h.query_ok htarget hleaves function accept
  exact ⟨outcome, hquery, hsound.reachable, hsound.has⟩

/-- Any words are refused or make an engine, which is in range and answers every query over signals
of its target without a fault. Its offers are signals of the target at the end, so they can be the
leaves of further queries. -/
theorem never_faults (verbose : Bool) (words : List UInt32) :
    ((∃ error, ofWords verbose words = .error error ∧ ∀ f, error ≠ .fault f) ∨
        ∃ e, ofWords verbose words = .ok e) ∧
      (∀ h ∈ words.head?, Header.words h < 2 ^ 32) ∧
      (∀ l, IndexList.ofWords words = .ok l → IndexList.WithinBounds words l) ∧
      (∀ (i d : Nat) (w : UInt32),
        ofWords verbose words = .error (.decode (.undefinedLiteral i w d)) →
        words[i]? = some w ∧ d < 2 ^ 32) ∧
      ∀ e, ofWords verbose words = .ok e → e.InRange ∧
        ∀ (function : Table) (leaves : List Signal) (accept : List Signal → Bool),
          (∀ g : Xag, g.Reachable → (∀ s ∈ leaves, g.Has s) →
            ∃ outcome, e.query function leaves accept g = .ok outcome ∧
              outcome.target.Reachable ∧ ∀ s ∈ outcome.offers, outcome.target.Has s) ∧
          ∀ b : Aig.Builder, b.Reachable → (∀ s ∈ leaves, b.Has s) →
            ∃ outcome, e.query function leaves accept b = .ok outcome ∧
              outcome.target.Reachable ∧ ∀ s ∈ outcome.offers, outcome.target.Has s := by
  refine ⟨?_, fun h _ => Header.words_lt h, fun l => IndexList.withinBounds, fun i d w hundefined => ?_,
    fun e he => ⟨(wellFormed_of_ofWords he).inRange, fun function leaves accept => ⟨?_, ?_⟩⟩⟩
  · exact (refused_or_made verbose words).imp_left
      fun ⟨error, hrefused, herror⟩ => ⟨error, herror, hrefused.ne_fault⟩
  · obtain ⟨hw, hd⟩ := (refused_of_ofWords hundefined).of_undefined
    have hlt := w.toNat_lt
    unfold Literal.node at hd
    exact ⟨hw, by omega⟩
  · intro g hg hleaves
    exact (wellFormed_of_ofWords he).answers_query hg hleaves function accept
  · intro b hb hleaves
    exact (wellFormed_of_ofWords he).answers_query hb hleaves function accept

/-- An engine of one gate is in range and answers a query with a leaf too few. -/
theorem never_faults_one_gate :
    ∃ e, ofWords false [65796, 7, 9, 10] = .ok e ∧ e.InRange ∧
      ∃ outcome, e.query ⟨2, 8, by decide⟩ [⟨1, true⟩] (fun _ => true)
        ((Aig.Builder.new "target" true true).addInput "x").2 = .ok outcome := by
  obtain ⟨e, he⟩ := exists_ofWords_one_gate
  obtain ⟨-, -, -, -, hengine⟩ := never_faults false [65796, 7, 9, 10]
  obtain ⟨hrange, hqueries⟩ := hengine e he
  obtain ⟨outcome, hquery, -⟩ := (hqueries ⟨2, 8, by decide⟩ [⟨1, true⟩] fun _ => true).2 _
    (.addInput (.new "target" true true) "x")
    (by simp [Aig.Builder.Has, Aig.Builder.new, Aig.Builder.addInput])
  exact ⟨e, he, hrange, outcome, hquery⟩

end Engine
end LogicResynthesis

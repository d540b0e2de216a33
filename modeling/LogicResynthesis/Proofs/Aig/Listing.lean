import LogicResynthesis.Proofs.Aig.InputEntries
import LogicResynthesis.Proofs.Aig.LiveGates
import LogicResynthesis.Proofs.Aig.ProgramText
import LogicResynthesis.Proofs.Aig.Sessions
import LogicResynthesis.Proofs.Dag.Recursion

/-!
# Listings are programs

The lines of a netlist are those of a straight-line program: a statement for each
live gate, in post-order, and one for each output. The gates that a statement
reads have a value before it, and a run gives the outputs the values that
evaluation finds.
-/

namespace LogicResynthesis
namespace Aig

/-- A signal as an operand; the complement of a literal is a literal. -/
def operandAt (nodes : Array Node) (s : Signal) : Operand :=
  match nodes[s.node]? with
  | some (.literal b) => ⟨.literal (b ^^ s.negated), false⟩
  | some (.input name) => ⟨.input name, s.negated⟩
  | _ => ⟨.gate s.node, s.negated⟩

def gateStatement (nodes : Array Node) (n : Nat) : Statement :=
  match nodes[n]? with
  | some (.and a b) => .gate n (operandAt nodes a) (operandAt nodes b)
  | _ => .gate n ⟨.gate n, false⟩ ⟨.gate n, false⟩

def outputStatement (nodes : Array Node) (p : Port) : Statement :=
  .output p.name (operandAt nodes p.signal)

/-- The statements of the given gates and of the outputs. -/
def Netlist.program (g : Netlist) (live : List Nat) : Program :=
  live.map (gateStatement g.nodes) ++ g.outputs.toList.map (outputStatement g.nodes)

section Lines

variable {nodes : Array Node}

theorem operand_eq {s : Signal} (hs : s.node < nodes.size) :
    Listing.operand nodes s = .ok (operandAt nodes s).text := by
  have hnode := Array.getElem?_eq_getElem hs
  rw [Listing.operand, operandAt, node?_eq hnode, hnode]
  cases nodes[s.node] <;> rfl

theorem gateStatement_eq {n : Nat} {a b : Signal} (hn : nodes[n]? = some (.and a b)) :
    gateStatement nodes n = .gate n (operandAt nodes a) (operandAt nodes b) := by
  rw [gateStatement, hn]

theorem gateLine_eq (hordered : Ordered nodes) {n : Nat} {a b : Signal}
    (hn : nodes[n]? = some (.and a b)) :
    Listing.gateLine nodes n = .ok (gateStatement nodes n).text := by
  have hlt := (Array.getElem?_eq_some_iff.mp hn).1
  obtain ⟨ha, hb⟩ := hordered.operands_lt hn
  rw [gateStatement_eq hn, Listing.gateLine, node?_eq hn]
  change (Listing.operand nodes a >>= fun x => Listing.operand nodes b >>= fun y => _) = _
  rw [operand_eq (Nat.lt_trans ha hlt), operand_eq (Nat.lt_trans hb hlt)]
  rfl

theorem outputLine_eq {p : Port} (hp : p.signal.node < nodes.size) :
    Listing.outputLine nodes p = .ok (outputStatement nodes p).text := by
  rw [Listing.outputLine, operand_eq hp]
  rfl

theorem gates_program {g : Netlist} (live : List Nat) : (g.program live).gates = live := by
  have hgate : ∀ n, (gateStatement g.nodes n).gate? = some n := by
    intro n
    unfold gateStatement
    split <;> rfl
  rw [Program.gates, Netlist.program, List.filterMap_append, List.filterMap_map, List.filterMap_map]
  have hgates : live.filterMap (Statement.gate? ∘ gateStatement g.nodes) = live := by
    simp [hgate]
  have houtputs : g.outputs.toList.filterMap (Statement.gate? ∘ outputStatement g.nodes) = [] := by
    simp [Function.comp_def, outputStatement, Statement.gate?]
  rw [hgates, houtputs, List.append_nil]

end Lines

namespace Netlist.Closed

variable {g : Netlist} {live : List Nat}

theorem operand_before (h : g.Closed) (hlive : g.liveGates = .ok live) {before after : List Nat}
    {n m : Nat} (hsplit : live = before ++ n :: after) (hm : m ∈ faninsOf g.nodes n)
    (hgate : g.isGate m = true) : m ∈ before := by
  have hroots : ∀ n ∈ g.outputs.toList.map (·.signal.node), n < g.nodes.size := by
    simpa using h.outputs_lt
  obtain ⟨order, horder, htopological, -⟩ :=
    h.ordered.ranked.postOrder_leads (fun _ => false) hroots
  rw [liveGates, liveNodes, postOrder, horder] at hlive
  obtain rfl := Except.ok.inj hlive
  obtain ⟨first, rest, rfl, rfl, hrest⟩ := List.filter_eq_append_iff.mp hsplit
  obtain ⟨skipped, last, rfl, hskipped, -, -⟩ := List.filter_eq_cons_iff.mp hrest
  have hbefore : false = true ∨ m ∈ first ++ skipped :=
    htopological.mem_before (List.append_assoc _ _ _).symm m hm
  rcases List.mem_append.mp (hbefore.resolve_left Bool.false_ne_true) with hmem | hmem
  · exact List.mem_filter.mpr ⟨hmem, hgate⟩
  · exact absurd hgate (hskipped m hmem)

theorem live_gate (h : g.Closed) (hlive : g.liveGates = .ok live) {n : Nat} (hn : n ∈ live) :
    ∃ a b, g.nodes[n]? = some (.and a b) := by
  obtain ⟨live', hlive', -, hmem⟩ := h.liveGates_ok
  obtain rfl := Except.ok.inj (hlive.symm.trans hlive')
  obtain ⟨p, -, hbelow⟩ := (hmem n).mp hn
  exact hbelow.gate

theorem output_live (h : g.Closed) (hlive : g.liveGates = .ok live) {p : Port}
    (hp : p ∈ g.outputs.toList) (hgate : g.isGate p.signal.node = true) :
    p.signal.node ∈ live := by
  obtain ⟨live', hlive', -, hmem⟩ := h.liveGates_ok
  obtain rfl := Except.ok.inj (hlive.symm.trans hlive')
  exact (hmem _).mpr ⟨p, hp, .refl, isAnd_at_iff.mp hgate⟩

/-- The lines are those of the program, between the heading and a brace. -/
theorem lines_eq (h : g.Closed) (hlive : g.liveGates = .ok live) :
    g.lines = .ok (Listing.heading g :: (g.program live).map Statement.text ++ ["\x7d"]) := by
  have hgates : live.mapM (Listing.gateLine g.nodes) =
      .ok (live.map fun n => (gateStatement g.nodes n).text) := by
    refine mapM_eq_ok fun n hn => ?_
    obtain ⟨a, b, hnode⟩ := h.live_gate hlive hn
    exact gateLine_eq h.ordered hnode
  have houtputs : g.outputs.toList.mapM (Listing.outputLine g.nodes) =
      .ok (g.outputs.toList.map fun p => (outputStatement g.nodes p).text) :=
    mapM_eq_ok fun p hp => outputLine_eq (h.outputs_lt p hp)
  rw [lines, hlive]
  change (live.mapM (Listing.gateLine g.nodes) >>= fun gates =>
    g.outputs.toList.mapM (Listing.outputLine g.nodes) >>= fun outputs =>
      Except.ok (Listing.heading g :: gates ++ outputs ++ ["\x7d"])) = _
  rw [hgates, houtputs, program, List.map_append, List.map_map, List.map_map]
  exact congrArg Except.ok (by simp [Function.comp_def])

end Netlist.Closed

section Grown

variable {g g' : Netlist} {live : List Nat}

theorem liveGates_of_grown (h : g.Closed) (h' : g'.Closed)
    (hgrown : g.nodes.toList <+: g'.nodes.toList) (houtputs : g'.outputs = g.outputs) :
    g'.liveGates = g.liveGates := by
  have hroots : ∀ n ∈ g.outputs.toList.map (·.signal.node), n < g.nodes.size := by
    simpa using h.outputs_lt
  have hroots' : ∀ n ∈ g.outputs.toList.map (·.signal.node), n < g'.nodes.size := by
    rw [← houtputs]
    simpa using h'.outputs_lt
  obtain ⟨order, hsearch, hrun⟩ := h.ordered.ranked.run_depthFirst (fun _ => false) hroots
  obtain ⟨order', hsearch', hrun'⟩ := h'.ordered.ranked.run_depthFirst (fun _ => false) hroots'
  obtain ⟨order₁, horder, htopological, -⟩ :=
    h.ordered.ranked.postOrder_leads (fun _ => false) hroots
  obtain rfl : order₁ = order := Except.ok.inj (horder.symm.trans (hrun _ (Nat.le_refl _)))
  obtain rfl := (hsearch.congr (fun n hn => faninsOf_eq_of_grown hgrown hn)
    h.ordered.ranked.below_lt hroots).unique hsearch'
  have hgate : ∀ n ∈ order', g'.isGate n = g.isGate n := by
    intro n hn
    rw [Netlist.isGate, Netlist.isGate, getElem?_eq_of_grown hgrown (htopological.lt_size n hn)]
  rw [Netlist.liveGates, Netlist.liveGates, Netlist.liveNodes, Netlist.liveNodes, houtputs,
    postOrder, postOrder, horder]
  refine (congrArg (Except.map _) (hrun' _ (Nat.le_refl _))).trans ?_
  exact congrArg Except.ok (List.filter_congr hgate)

theorem operandAt_of_grown {nodes nodes' : Array Node} (hgrown : nodes.toList <+: nodes'.toList)
    {s : Signal} (hs : s.node < nodes.size) : operandAt nodes' s = operandAt nodes s := by
  rw [operandAt, operandAt, getElem?_eq_of_grown hgrown hs]

theorem lines_of_grown (h : g.Closed) (h' : g'.Closed)
    (hgrown : g.nodes.toList <+: g'.nodes.toList) (hname : g'.name = g.name)
    (hinputs : g'.inputs = g.inputs) (houtputs : g'.outputs = g.outputs) :
    g'.lines = g.lines := by
  obtain ⟨live, hlive, -⟩ := h.liveGates_ok
  have hlive' := (liveGates_of_grown h h' hgrown houtputs).trans hlive
  have hgates : live.map (gateStatement g'.nodes) = live.map (gateStatement g.nodes) := by
    refine List.map_congr_left fun n hn => ?_
    obtain ⟨a, b, hnode⟩ := h.live_gate hlive hn
    have hlt := (Array.getElem?_eq_some_iff.mp hnode).1
    obtain ⟨ha, hb⟩ := h.ordered.operands_lt hnode
    rw [gateStatement_eq hnode, gateStatement_eq (getElem?_of_grown hgrown hnode),
      operandAt_of_grown hgrown (Nat.lt_trans ha hlt),
      operandAt_of_grown hgrown (Nat.lt_trans hb hlt)]
  have hports : g.outputs.toList.map (outputStatement g'.nodes) =
      g.outputs.toList.map (outputStatement g.nodes) := by
    refine List.map_congr_left fun p hp => ?_
    rw [outputStatement, outputStatement, operandAt_of_grown hgrown (h.outputs_lt p hp)]
  rw [h.lines_eq hlive, h'.lines_eq hlive', Listing.heading, Listing.heading, Netlist.program,
    Netlist.program, hname, hinputs, houtputs, hgates, hports]

end Grown

section Run

theorem lookup_zip {α β : Type} [BEq α] [LawfulBEq α] {keys : List α} {values : List β}
    (h : keys.Nodup) {i : Nat} {key : α} {value : β} (hkey : keys[i]? = some key)
    (hvalue : values[i]? = some value) : (keys.zip values).lookup key = some value := by
  induction keys generalizing values i with
  | nil => simp at hkey
  | cons k keys ih =>
    cases values with
    | nil => simp at hvalue
    | cons v values =>
      obtain ⟨hk, hkeys⟩ := List.nodup_cons.mp h
      cases i with
      | zero =>
        obtain rfl : k = key := by simpa using hkey
        obtain rfl : v = value := by simpa using hvalue
        simp
      | succ i =>
        rw [List.getElem?_cons_succ] at hkey hvalue
        have hne : key ≠ k := by
          rintro rfl
          exact hk (List.mem_of_getElem? hkey)
        rw [List.zip_cons_cons, List.lookup_cons, beq_false_of_ne hne]
        exact ih hkeys hkey hvalue

def Netlist.namedValues (g : Netlist) (values : List Bool) : List (String × Bool) :=
  (g.inputs.toList.map (·.name)).zip values

/-- The value of an input node, as evaluation binds it. -/
def Netlist.boundValue (g : Netlist) (values : List Bool) (n : Nat) : Bool :=
  (bound (· ^^ ·) g.inputs.toList values n).getD false

variable {g : Netlist} {values : List Bool}

theorem lookup_namedValues (hports : g.inputs.toList = inputPorts g.nodes)
    (hnames : (g.inputs.toList.map (·.name)).Nodup) (hvalues : values.length = g.inputs.size)
    {n : Nat} {name : String} (hn : g.nodes[n]? = some (.input name)) :
    (g.namedValues values).lookup name = some (g.boundValue values n) := by
  have hport : (⟨name, .ofNode n⟩ : Port) ∈ g.inputs.toList :=
    hports ▸ mem_inputPorts.mpr ⟨n, name, hn, rfl⟩
  obtain ⟨i, hi⟩ := List.mem_iff_getElem?.mp hport
  have hlt : i < values.length := by
    rw [hvalues]
    simpa using (List.getElem?_eq_some_iff.mp hi).1
  have hvalue := List.getElem?_eq_getElem hlt
  have hbound : bound (· ^^ ·) g.inputs.toList values n = some values[i] :=
    (bound_eq_some_iff (Netlist.distinctInputs_of_inputPorts hports).nodup).mpr
      ⟨i, _, _, hi, hvalue, rfl, Bool.xor_false _⟩
  rw [Netlist.boundValue, hbound]
  exact lookup_zip hnames (by rw [List.getElem?_map, hi]; rfl) hvalue

def gateValues (nodes : Array Node) (ρ : Nat → Bool) (ns : List Nat) : List (Nat × Bool) :=
  ns.reverse.map fun n => (n, value nodes ρ (.ofNode n))

theorem gateValues_concat (nodes : Array Node) (ρ : Nat → Bool) (ns : List Nat) (n : Nat) :
    gateValues nodes ρ (ns ++ [n]) = (n, value nodes ρ (.ofNode n)) :: gateValues nodes ρ ns := by
  simp [gateValues]

variable {inputs : List (String × Bool)} {ρ : Nat → Bool}

theorem value?_operandAt
    (hinputs : ∀ n name, g.nodes[n]? = some (.input name) → inputs.lookup name = some (ρ n))
    {s : Signal} (hs : s.node < g.nodes.size) {gates : List Nat}
    (hgate : g.isGate s.node = true → s.node ∈ gates) :
    (operandAt g.nodes s).value? inputs (gateValues g.nodes ρ gates) =
      some (value g.nodes ρ s) := by
  have hnode := Array.getElem?_eq_getElem hs
  rw [operandAt, value_eq_ofNode, hnode]
  cases hkind : g.nodes[s.node] with
  | literal b =>
    rw [hkind] at hnode
    rw [value_literal ρ hnode]
    simp [Operand.value?, Term.value?]
  | input name =>
    rw [hkind] at hnode
    rw [value_input ρ hnode]
    simp [Operand.value?, Term.value?, hinputs _ _ hnode]
  | and a b =>
    rw [hkind] at hnode
    have hlisted := List.mem_reverse.mpr (hgate (isAnd_at_iff.mpr ⟨a, b, hnode⟩))
    have hlookup : (gateValues g.nodes ρ gates).lookup s.node =
        some (value g.nodes ρ (.ofNode s.node)) :=
      List.lookup_graph (fun n => value g.nodes ρ (.ofNode n)) hlisted
    simp [Operand.value?, Term.value?, hlookup]

namespace Netlist.Closed

variable {live : List Nat}

theorem run_gates (h : g.Closed) (hlive : g.liveGates = .ok live)
    (hinputs : ∀ n name, g.nodes[n]? = some (.input name) → inputs.lookup name = some (ρ n))
    {before after : List Nat} (hsplit : live = before ++ after) (outputs : List (String × Bool)) :
    (after.map (gateStatement g.nodes)).foldlM (Statement.execute? inputs)
        ⟨gateValues g.nodes ρ before, outputs⟩ =
      some ⟨gateValues g.nodes ρ live, outputs⟩ := by
  induction after generalizing before with
  | nil =>
    rw [hsplit, List.append_nil]
    rfl
  | cons n after ih =>
    obtain ⟨a, b, hnode⟩ := h.live_gate hlive (n := n) (by simp [hsplit])
    have hlt := (Array.getElem?_eq_some_iff.mp hnode).1
    obtain ⟨ha, hb⟩ := h.ordered.operands_lt hnode
    have hoperand : ∀ s : Signal, s = a ∨ s = b → s.node < n →
        (operandAt g.nodes s).value? inputs
            (gateValues g.nodes ρ before) =
          some (Aig.value g.nodes ρ s) := by
      intro s hs hsn
      refine value?_operandAt hinputs (Nat.lt_trans hsn hlt) fun hgate => ?_
      refine h.operand_before hlive hsplit (mem_faninsOf.mpr ⟨a, b, hnode, ?_⟩) hgate
      exact hs.imp (congrArg _) (congrArg _)
    have hstep : Statement.execute? inputs
        ⟨gateValues g.nodes ρ before, outputs⟩
          (gateStatement g.nodes n) =
        some ⟨gateValues g.nodes ρ (before ++ [n]), outputs⟩ := by
      rw [gateStatement_eq hnode, Statement.execute?, hoperand a (.inl rfl) ha,
        hoperand b (.inr rfl) hb, gateValues_concat, value_and ρ h.ordered hnode]
      rfl
    rw [List.map_cons, List.foldlM_cons, hstep, Option.bind_eq_bind, Option.bind_some]
    exact ih (by simp [hsplit])

theorem run_outputs {gates : List Nat} {ports : List Port}
    (hinputs : ∀ n name, g.nodes[n]? = some (.input name) → inputs.lookup name = some (ρ n))
    (hports : ∀ p ∈ ports, p.signal.node < g.nodes.size)
    (hgates : ∀ p ∈ ports, g.isGate p.signal.node = true → p.signal.node ∈ gates)
    (outputs : List (String × Bool)) :
    (ports.map (outputStatement g.nodes)).foldlM (Statement.execute? inputs)
        ⟨gateValues g.nodes ρ gates, outputs⟩ =
      some ⟨gateValues g.nodes ρ gates,
        outputs ++ ports.map fun p => (p.name, Aig.value g.nodes ρ p.signal)⟩ := by
  induction ports generalizing outputs with
  | nil => simp
  | cons p ports ih =>
    have hvalue := value?_operandAt hinputs (hports p List.mem_cons_self)
      (hgates p List.mem_cons_self)
    rw [List.map_cons, List.foldlM_cons, outputStatement, Statement.execute?, hvalue]
    refine (ih (fun q hq => hports q (List.mem_cons_of_mem _ hq))
      (fun q hq => hgates q (List.mem_cons_of_mem _ hq)) _).trans ?_
    rw [List.append_assoc]
    rfl

/-- A run ends with the values of the live gates and of the outputs. -/
theorem run_program (h : g.Closed) (hlive : g.liveGates = .ok live)
    (hinputs : ∀ n name, g.nodes[n]? = some (.input name) → inputs.lookup name = some (ρ n)) :
    (g.program live).run? inputs =
      some ⟨gateValues g.nodes ρ live,
        g.outputs.toList.map fun p => (p.name, Aig.value g.nodes ρ p.signal)⟩ := by
  have hgates := h.run_gates hlive hinputs (List.nil_append live).symm []
  rw [Program.run?, program, List.foldlM_append]
  refine (congrArg (· >>= _) hgates).trans ?_
  exact run_outputs hinputs h.outputs_lt (fun p hp => h.output_live hlive hp) []

end Netlist.Closed

end Run

/-- A listing of the live gates, each once and after those that it reads, on which a run gives
every gate and every output the value that evaluation finds. -/
structure Netlist.ListedAs (g : Netlist) (program : Program) : Prop where
  live : g.liveGates = .ok program.gates
  count : g.numLiveGates = .ok program.gates.length
  nodup : program.gates.Nodup
  mem_gates : ∀ k, k ∈ program.gates ↔
    ∃ p ∈ g.outputs.toList, GateBelow g.nodes p.signal.node k
  defined : ∀ (before after : Program) (st : Statement), program = before ++ st :: after →
    ∀ x ∈ st.operands, ∀ n, x.term = .gate n → n ∈ before.gates
  run : ∀ values : List Bool, values.length = g.inputs.size →
    ∃ e, g.eval values = .ok e ∧
      program.run? (g.namedValues values) =
        some ⟨program.gates.reverse.map fun n => (n, e.value (.ofNode n)),
          (g.outputs.toList.map (·.name)).zip e.outputs⟩

namespace Netlist.Closed

variable {g : Netlist} {live : List Nat}

theorem listedAs (h : g.Closed) (hlive : g.liveGates = .ok live)
    (hports : g.inputs.toList = inputPorts g.nodes)
    (hnames : (g.inputs.toList.map (·.name)).Nodup) : g.ListedAs (g.program live) := by
  have hrun : ∀ values : List Bool, values.length = g.inputs.size →
      (g.program live).run? (g.namedValues values) = _ :=
    fun values hvalues =>
      h.run_program hlive fun n name hn => lookup_namedValues hports hnames hvalues hn
  obtain ⟨live', hlive', hnodup, hmem⟩ := h.liveGates_ok
  obtain rfl := Except.ok.inj (hlive.symm.trans hlive')
  constructor
  · rw [gates_program, hlive]
  · rw [gates_program, numLiveGates, hlive]
    rfl
  · rw [gates_program]
    exact hnodup
  · rw [gates_program]
    exact hmem
  · intro before after st hsplit x hx n hn
    have hfalse := hrun (List.replicate g.inputs.size false) List.length_replicate
    exact Program.defined_of_run hfalse hsplit hx hn
  · intro values hvalues
    have heval := (eval_ok_iff h.ordered hvalues _).mpr ⟨h.outputs_lt, rfl⟩
    refine ⟨_, heval, (hrun values hvalues).trans ?_⟩
    rw [gates_program, List.zip_map']
    rfl

theorem text_eq (h : g.Closed) (hlive : g.liveGates = .ok live) :
    g.text = .ok ("\n".intercalate
      (Listing.heading g :: (g.program live).map Statement.text ++ ["\x7d"])) := by
  rw [text, h.lines_eq hlive]
  rfl

end Netlist.Closed

section Names

variable {g : Netlist}

/-- Under names that can be told apart from gates and literals the program is readable. -/
theorem readable_program (hports : g.inputs.toList = inputPorts g.nodes)
    (hnames : ∀ p ∈ g.inputs.toList, IsName p.name) (live : List Nat) :
    ∀ st ∈ g.program live, st.Readable := by
  have hoperand : ∀ s, (operandAt g.nodes s).term.Readable := by
    intro s
    unfold operandAt
    split
    · trivial
    · next name hn =>
      have hport : (⟨name, .ofNode s.node⟩ : Port) ∈ g.inputs.toList :=
        hports ▸ mem_inputPorts.mpr ⟨s.node, name, hn, rfl⟩
      exact hnames _ hport
    · trivial
  intro st hst x hx
  rcases List.mem_append.mp hst with hst | hst
  · obtain ⟨n, -, rfl⟩ := List.mem_map.mp hst
    unfold gateStatement at hx
    split at hx
    · obtain rfl | rfl : x = _ ∨ x = _ := by simpa [Statement.operands] using hx
      · exact hoperand _
      · exact hoperand _
    · obtain rfl : x = _ := by simpa [Statement.operands] using hx
      trivial
  · obtain ⟨p, -, rfl⟩ := List.mem_map.mp hst
    obtain rfl : x = _ := List.mem_singleton.mp hx
    exact hoperand _

theorem not_mem_intercalate {c : Char} {sep : List Char} {ls : List (List Char)} (hsep : c ∉ sep)
    (hls : ∀ l ∈ ls, c ∉ l) : c ∉ sep.intercalate ls := by
  induction ls with
  | nil => simp [List.intercalate]
  | cons l ls ih =>
    have hl := hls l List.mem_cons_self
    have hrest := ih fun l' hl' => hls l' (List.mem_cons_of_mem _ hl')
    by_cases hnil : ls = []
    · simpa [hnil, List.intercalate] using hl
    · rw [List.intercalate_cons_of_ne_nil hnil]
      simp [hl, hsep, hrest]

theorem newline_not_mem_portNames {ports : Array Port}
    (h : ∀ p ∈ ports.toList, '\n' ∉ p.name.toList) : '\n' ∉ (Listing.portNames ports).toList := by
  rw [Listing.portNames, String.toList_intercalate]
  refine not_mem_intercalate (by decide) ?_
  simpa using h

/-- The lines of a text are those that were written, unless a name holds a line break. -/
theorem splitOn_lines {live : List Nat} (hports : g.inputs.toList = inputPorts g.nodes)
    (hnames : ∀ p ∈ g.inputs.toList, IsName p.name) (hname : '\n' ∉ g.name.toList)
    (houtputs : ∀ p ∈ g.outputs.toList, '\n' ∉ p.name.toList) {lines : List String}
    (hlines : lines = Listing.heading g :: (g.program live).map Statement.text ++ ["\x7d"]) :
    ("\n".intercalate lines).toList.splitOn '\n' = lines.map String.toList := by
  have hinputs : ∀ p ∈ g.inputs.toList, '\n' ∉ p.name.toList :=
    fun p hp hmem => ((hnames p hp).2.2.2 _ hmem).2 (by decide)
  have hheading : '\n' ∉ (Listing.heading g).toList := by
    change '\n' ∉ ("fn " ++ g.name ++ "(" ++ Listing.portNames g.inputs ++ ") -> (" ++
      Listing.portNames g.outputs ++ ") \x7b").toList
    simp [hname, newline_not_mem_portNames hinputs, newline_not_mem_portNames houtputs]
  have hstatement : ∀ st ∈ g.program live, '\n' ∉ st.text.toList := by
    intro st hst
    refine Statement.newline_not_mem_text (readable_program hports hnames live st hst) ?_
    rintro name a rfl
    rcases List.mem_append.mp hst with hst | hst
    · obtain ⟨n, -, hn⟩ := List.mem_map.mp hst
      unfold gateStatement at hn
      split at hn <;> cases hn
    · obtain ⟨p, hp, houtput⟩ := List.mem_map.mp hst
      obtain ⟨rfl, -⟩ := Statement.output.inj houtput
      exact houtputs p hp
  have hline : ∀ line ∈ lines, '\n' ∉ line.toList := by
    intro line hmem
    rw [hlines, List.cons_append, List.mem_cons, List.mem_append, List.mem_map,
      List.mem_singleton] at hmem
    rcases hmem with rfl | ⟨st, hst, rfl⟩ | rfl
    · exact hheading
    · exact hstatement st hst
    · decide
  rw [String.toList_intercalate]
  refine List.splitOn_intercalate '\n' (by simpa using hline) ?_
  simp [hlines]

end Names

namespace Session

/-- A session that adds two inputs, a gate that is shared and one that is not, and two outputs. -/
def shared : Session :=
  ⟨⟨⟨"f", #[⟨"a_1", ⟨1, false⟩⟩, ⟨"b", ⟨2, false⟩⟩], #[⟨"o", ⟨4, true⟩⟩, ⟨"true", ⟨3, false⟩⟩],
      #[.literal false, .input "a_1", .input "b", .and ⟨1, false⟩ ⟨2, false⟩,
        .and ⟨1, false⟩ ⟨3, true⟩]⟩, false, none⟩,
    [⟨4, false⟩, ⟨3, false⟩, ⟨2, false⟩, ⟨1, false⟩]⟩

theorem leadsTo_shared : (start "f" false false).LeadsTo shared := by
  have hinputs : (start "f" false false).LeadsTo _ := .tail (.single (.input "a_1")) (.input "b")
  have hgate := hinputs.tail (.gate .and (x := ⟨1, false⟩) (y := ⟨2, false⟩)
    (.inr ⟨⟨1, false⟩, .tail _ (.head _), rfl⟩) (.inr ⟨⟨2, false⟩, .head _, rfl⟩) rfl)
  have hsecond := hgate.tail (.gate .and (x := ⟨1, false⟩) (y := ⟨3, true⟩)
    (.inr ⟨⟨1, false⟩, .tail _ (.tail _ (.head _)), rfl⟩) (.inr ⟨⟨3, false⟩, .head _, rfl⟩) rfl)
  have houtput := hsecond.tail (.output (x := ⟨4, true⟩) "o" (.inr ⟨⟨4, false⟩, .head _, rfl⟩))
  exact houtput.tail (.output (x := ⟨3, false⟩) "true" (.inr ⟨⟨3, false⟩, .tail _ (.head _), rfl⟩))

end Session

end Aig
end LogicResynthesis

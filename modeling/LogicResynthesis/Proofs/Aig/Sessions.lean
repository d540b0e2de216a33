import Mathlib.Data.Sym.Sym2
import LogicResynthesis.Proofs.Aig.Sharing

/-!
# Sessions with a builder

In a session every operand is a constant or a signal that the builder returned
before, perhaps complemented. At any time the netlist is in creation order and
the entries for inputs are exact. If gates are shared, duplicates stay unused, no
two gates below returned signals have the same operands, and an operation is
answered in one way as long as the session lasts.
-/

namespace LogicResynthesis
namespace Aig

inductive Connective
  | and
  | or
  | xor
deriving DecidableEq, Repr

namespace Connective

def add? : Connective → Builder → Signal → Signal → Except Fault (Signal × Builder)
  | and => Builder.addAnd
  | or => Builder.addOr
  | xor => Builder.addXor

def Answer : Connective → Builder → Signal → Signal → Signal → Prop
  | and => Builder.AndAnswer
  | or => Builder.OrAnswer
  | xor => Builder.XorAnswer

variable {b b' : Builder} {x y r r' : Signal} (op : Connective)

theorem builds (h : b.Tidy) (hx : b.Held x) (hy : b.Held y) :
    b.Builds (fun b' r => op.Answer b' x y r) (op.add? b x y) := by
  cases op with
  | and => exact h.addAnd hx hy
  | or => exact h.addOr hx hy
  | xor => exact h.addXor hx hy

variable {op}

theorem Answer.swap (h : op.Answer b x y r) (hwf : b.WellFormed) (hx : b.Has x) (hy : b.Has y) :
    op.Answer b y x r := by
  cases op with
  | and => exact Builder.AndAnswer.swap h hwf hx hy
  | or => exact Builder.AndAnswer.swap h hwf hx hy
  | xor => exact Builder.XorAnswer.swap h hwf hx hy

theorem Answer.of_extends (h : op.Answer b x y r) (hwf : b.WellFormed) (hx : b.Has x)
    (hy : b.Has y) (hext : b.Extends b') : op.Answer b' x y r := by
  cases op with
  | and => exact Builder.AndAnswer.of_extends h hwf hx hy hext
  | or => exact Builder.AndAnswer.of_extends h hwf hx hy hext
  | xor => exact Builder.XorAnswer.of_extends h hwf hx hy hext

theorem Answer.unique (h : op.Answer b x y r) (h' : op.Answer b x y r') (hwf : b.WellFormed)
    (hhashing : b.hashing = true) : r = r' := by
  cases op with
  | and => exact Builder.AndAnswer.unique h h' hwf hhashing
  | or =>
    have hcomplement := congrArg Signal.complement (Builder.AndAnswer.unique h h' hwf hhashing)
    simpa using hcomplement
  | xor => exact Builder.XorAnswer.unique h h' hwf hhashing

theorem add?_of_answer (op : Connective) (h : b.Tidy) (hhashing : b.hashing = true)
    (hx : b.Held x) (hy : b.Held y) (hanswer : op.Answer b x y r) :
    ∃ b', op.add? b x y = .ok (r, b') := by
  obtain ⟨r', b', hadd, h', hgrows, -, hanswer'⟩ := op.builds h hx hy
  have hanswer₁ := hanswer.of_extends h.toWellFormed hx.has hy.has hgrows.extends
  have hsame := hanswer₁.unique hanswer' h'.toWellFormed (hgrows.hashing.trans hhashing)
  exact ⟨b', hsame ▸ hadd⟩

end Connective

/-- A builder and the signals that it has returned. -/
structure Session where
  builder : Builder
  returned : List Signal

namespace Session

def start (name : String) (folding hashing : Bool) : Session :=
  ⟨Builder.new name folding hashing, []⟩

variable (s : Session)

def nodes : Array Node := s.builder.netlist.nodes

/-- A constant, or a returned signal, perhaps complemented. -/
def Holds (x : Signal) : Prop := x.node = 0 ∨ ∃ r ∈ s.returned, x.node = r.node

inductive Step : Session → Session → Prop
  | input {s : Session} (name : String) :
      Step s ⟨(s.builder.addInput name).2, (s.builder.addInput name).1 :: s.returned⟩
  | output {s : Session} {x : Signal} (name : String) (hx : s.Holds x) :
      Step s ⟨s.builder.addOutput name x, s.returned⟩
  | gate {s : Session} {x y r : Signal} {b : Builder} (op : Connective) (hx : s.Holds x)
      (hy : s.Holds y) (hadd : op.add? s.builder x y = .ok (r, b)) : Step s ⟨b, r :: s.returned⟩
  | depth {s : Session} {x : Signal} {depth : Nat} {b : Builder} (hx : s.Holds x)
      (hdepth : s.builder.depth? x = .ok (some (depth, b))) : Step s ⟨b, s.returned⟩

def LeadsTo : Session → Session → Prop := Relation.ReflTransGen Step

/-- Neither a gate nor an output refers to the node, and no held signal is one of it. -/
structure Unused (n : Nat) : Prop where
  gates : ∀ (k : Nat) (x y : Signal), s.nodes[k]? = some (.and x y) → x.node ≠ n ∧ y.node ≠ n
  outputs : ∀ p ∈ s.builder.netlist.outputs.toList, p.signal.node ≠ n
  held : ∀ x, s.Holds x → x.node ≠ n

/-- What sharing gates comes to: another node answers for a new gate just if it is a duplicate, as
it is from then on; duplicates are unused; gates below held signals differ in their operands; and an
operation has one answer, now and later and in both orders. -/
structure Shared : Prop where
  known : ∀ x y, s.Holds x → s.Holds y →
    ∃ k b, s.builder.pushAnd x y = .ok (.ofNode k, b) ∧
      ∀ t : Session, LeadsTo ⟨b, .ofNode k :: s.returned⟩ t →
        (k ≠ s.builder.size ↔ Duplicate t.nodes s.builder.size)
  unused : ∀ n, Duplicate s.nodes n → s.Unused n
  distinct : ∀ (x y : Signal) (n k : Nat) (a b c d : Signal), s.Holds x → s.Holds y →
    Dag.Leads (faninsOf s.nodes) x.node n → Dag.Leads (faninsOf s.nodes) y.node k →
    s.nodes[n]? = some (.and a b) → s.nodes[k]? = some (.and c d) → n ≠ k → s(a, b) ≠ s(c, d)
  repeats : ∀ (op : Connective) (x y : Signal), s.Holds x → s.Holds y →
    ∃ r b, op.add? s.builder x y = .ok (r, b) ∧
      ∀ t : Session, LeadsTo ⟨b, r :: s.returned⟩ t →
        ∃ b' b'', op.add? t.builder x y = .ok (r, b') ∧ op.add? t.builder y x = .ok (r, b'')

/-- The builder is tidy, and all returned signals are held. -/
structure Sound : Prop where
  tidy : s.builder.Tidy
  held : ∀ r ∈ s.returned, s.builder.Held r

variable {s} {t : Session} {x y : Signal}

theorem sound_start (name : String) (folding hashing : Bool) :
    (start name folding hashing).Sound where
  tidy := .new name folding hashing
  held := by simp [start]

namespace Sound

theorem holds (h : s.Sound) (hx : s.Holds x) : s.builder.Held x := by
  rcases hx with hzero | ⟨r, hr, hnode⟩
  · exact (h.tidy.held_constant false).of_node_eq hzero
  · exact (h.held r hr).of_node_eq hnode

theorem cons (h : s.Sound) {b : Builder} (hb : b.Tidy) (hext : s.builder.Extends b) {r : Signal}
    (hr : b.Held r) : Sound ⟨b, r :: s.returned⟩ where
  tidy := hb
  held u hu := by
    rcases List.mem_cons.mp hu with rfl | hu
    · exact hr
    · exact (h.held u hu).of_extends h.tidy.toWellFormed hext

theorem keep (h : s.Sound) {b : Builder} (hb : b.Tidy) (hext : s.builder.Extends b) :
    Sound ⟨b, s.returned⟩ where
  tidy := hb
  held r hr := (h.held r hr).of_extends h.tidy.toWellFormed hext

theorem step (h : s.Sound) (hstep : Step s t) : t.Sound ∧ s.builder.Extends t.builder := by
  cases hstep with
  | input name =>
    obtain ⟨hb, hext, hheld⟩ := h.tidy.addInput name
    exact ⟨h.cons hb hext hheld, hext⟩
  | output name hx =>
    obtain ⟨hb, hext⟩ := h.tidy.addOutput name (h.holds hx)
    exact ⟨h.keep hb hext, hext⟩
  | gate op hx hy hadd =>
    obtain ⟨r', b', hadd', hb, hgrows, hr, -⟩ := op.builds h.tidy (h.holds hx) (h.holds hy)
    obtain ⟨rfl, rfl⟩ := Prod.mk.inj (Except.ok.inj (hadd.symm.trans hadd'))
    exact ⟨h.cons hb hgrows.extends hr, hgrows.extends⟩
  | depth hx hdepth =>
    obtain ⟨hb, hext⟩ := h.tidy.depth? (h.holds hx) hdepth
    exact ⟨h.keep hb hext, hext⟩

theorem leadsTo (h : s.Sound) (hleads : s.LeadsTo t) : t.Sound ∧ s.builder.Extends t.builder := by
  induction hleads with
  | refl => exact ⟨h, .refl _⟩
  | tail _ hstep ih =>
    obtain ⟨hsound, hext⟩ := ih
    obtain ⟨hsound', hext'⟩ := hsound.step hstep
    exact ⟨hsound', hext.trans hext'⟩

theorem original_of_leads (h : s.Sound) (hhashing : s.builder.hashing = true) {n k : Nat}
    (hn : Original s.nodes n) (hleads : Dag.Leads (faninsOf s.nodes) n k) :
    Original s.nodes k := by
  induction hleads with
  | refl => exact hn
  | tail _ hstep ih =>
    obtain ⟨x, y, hgate, rfl | rfl⟩ := mem_faninsOf.mp hstep
    · exact (h.tidy.operands _ x y hgate).1.original hhashing
    · exact (h.tidy.operands _ x y hgate).2.original hhashing

theorem unused (h : s.Sound) (hhashing : s.builder.hashing = true) {n : Nat}
    (hn : Duplicate s.nodes n) : s.Unused n := by
  have hne : ∀ {x : Signal}, s.builder.Held x → x.node ≠ n := by
    rintro x hx rfl
    exact (hx.original hhashing).first hn
  constructor
  · intro k x y hk
    obtain ⟨hx, hy⟩ := h.tidy.operands k x y hk
    exact ⟨hne hx, hne hy⟩
  · exact fun p hp => hne (h.tidy.outputs p hp)
  · exact fun x hx => hne (h.holds hx)

theorem shared (h : s.Sound) (hhashing : s.builder.hashing = true) : s.Shared where
  known x y hx hy := by
    obtain ⟨k, b, hpush, hb⟩ := h.tidy.pushAnd (h.holds hx) (h.holds hy)
    have hhashing' : b.hashing = true := hb.grows.hashing.trans hhashing
    have hk : b.Held (.ofNode k) := ⟨hb.isAndOf.lt_size, hb.original⟩
    refine ⟨k, b, hpush, fun t ht => ?_⟩
    obtain ⟨ht, hext⟩ := (h.cons hb.tidy hb.grows.extends hk).leadsTo ht
    rw [hb.known hhashing']
    exact (duplicate_iff_of_grown hb.tidy.closed.ordered hext.nodes hb.size_lt).symm
  unused n hn := h.unused hhashing hn
  distinct x y n k a b c d hx hy hn hk hab hcd hne := by
    have hn' := h.original_of_leads hhashing ((h.holds hx).original hhashing) hn
    have hk' := h.original_of_leads hhashing ((h.holds hy).original hhashing) hk
    intro hpair
    have hcd' : IsAndOf s.nodes k a b := by
      rcases Sym2.eq_iff.mp hpair with ⟨rfl, rfl⟩ | ⟨rfl, rfl⟩
      · exact .inl hcd
      · exact .inr hcd
    have hab' : IsAndOf s.nodes n a b := .inl hab
    exact hne (hn'.eq_of_sameStructure hk' (hab'.sameStructure h.tidy.closed.ordered hcd'))
  repeats op x y hx hy := by
    obtain ⟨r, b, hadd, hb, hgrows, hr, hanswer⟩ := op.builds h.tidy (h.holds hx) (h.holds hy)
    refine ⟨r, b, hadd, fun t ht => ?_⟩
    obtain ⟨ht, hext⟩ := (h.cons hb hgrows.extends hr).leadsTo ht
    have hx₁ := (h.holds hx).of_extends h.tidy.toWellFormed hgrows.extends
    have hy₁ := (h.holds hy).of_extends h.tidy.toWellFormed hgrows.extends
    have hx' := hx₁.of_extends hb.toWellFormed hext
    have hy' := hy₁.of_extends hb.toWellFormed hext
    have hanswer' := hanswer.of_extends hb.toWellFormed hx₁.has hy₁.has hext
    have hhashing' : t.builder.hashing = true :=
      hext.hashing.trans (hgrows.hashing.trans hhashing)
    obtain ⟨b', hadd'⟩ := op.add?_of_answer ht.tidy hhashing' hx' hy' hanswer'
    obtain ⟨b'', hadd''⟩ := op.add?_of_answer ht.tidy hhashing' hy' hx'
      (hanswer'.swap ht.tidy.toWellFormed hx'.has hy'.has)
    exact ⟨b', b'', hadd', hadd''⟩

end Sound

/-- The netlist of a session starts with the constant, is in creation order and lists its inputs
exactly; if gates are shared, equal gates are shared for good. -/
theorem representation_invariant {name : String} {folding hashing : Bool} {s : Session}
    (h : (start name folding hashing).LeadsTo s) :
    s.nodes[0]? = some (.literal false) ∧
      (∀ (n : Nat) (x y : Signal), s.nodes[n]? = some (.and x y) → x.node < n ∧ y.node < n) ∧
      s.builder.netlist.inputs.toList = inputPorts s.nodes ∧
      (hashing = true → s.Shared) := by
  obtain ⟨hsound, hext⟩ := (sound_start name folding hashing).leadsTo h
  refine ⟨hsound.tidy.zero, fun n x y => hsound.tidy.closed.ordered.operands_lt,
    hsound.tidy.inputs, ?_⟩
  rintro rfl
  exact hsound.shared hext.hashing

/-- A conjunction of two inputs, asked for in both orders, is answered twice by one signal. -/
theorem representation_invariant_swapped :
    ∃ s r, (start "pair" true true).LeadsTo s ∧ s.returned = [r, r, ⟨2, false⟩, ⟨1, false⟩] ∧
      s.nodes[0]? = some (.literal false) ∧
      s.builder.netlist.inputs.toList = inputPorts s.nodes ∧ s.Shared := by
  let inputs : Session := ⟨((Builder.new "pair" true true).addInput "a").2.addInput "b" |>.2,
    [⟨2, false⟩, ⟨1, false⟩]⟩
  have hinputs : (start "pair" true true).LeadsTo inputs :=
    .tail (.single (.input "a")) (.input "b")
  have ha : ∀ b more, Holds ⟨b, more ++ inputs.returned⟩ ⟨1, false⟩ :=
    fun _ _ => .inr ⟨⟨1, false⟩, by simp [inputs], rfl⟩
  have hb : ∀ b more, Holds ⟨b, more ++ inputs.returned⟩ ⟨2, false⟩ :=
    fun _ _ => .inr ⟨⟨2, false⟩, by simp [inputs], rfl⟩
  obtain ⟨-, -, -, hshared⟩ := representation_invariant hinputs
  obtain ⟨r, b, hadd, hlater⟩ := (hshared rfl).repeats .and _ _ (ha _ []) (hb _ [])
  obtain ⟨-, b', -, hadd'⟩ := hlater _ .refl
  have hfirst : Step inputs ⟨b, r :: inputs.returned⟩ := .gate .and (ha _ []) (hb _ []) hadd
  have hsecond : Step ⟨b, r :: inputs.returned⟩ ⟨b', r :: r :: inputs.returned⟩ :=
    .gate .and (hb _ [r]) (ha _ [r]) hadd'
  have hleads := (hinputs.tail hfirst).tail hsecond
  obtain ⟨hzero, -, hports, hshared'⟩ := representation_invariant hleads
  exact ⟨_, r, hleads, rfl, hzero, hports, hshared' rfl⟩

end Session
end Aig
end LogicResynthesis

import LogicResynthesis.Proofs.Aig.HashHistory

/-!
# Hashing by digests

A hash that knows nodes by the digests of their messages, with no table of
shapes. As long as messages do not collide it goes through the same states as
the one that numbers classes, up to the names of these, and replies alike.
-/

namespace LogicResynthesis
namespace Aig

structure DigestSummary where
  depth : Nat
  digest : Digest

instance : Hashable Digest where
  hash d := Hashable.hash d.toList

structure DigestHash where
  summaries : Std.HashMap Nat DigestSummary
  /-- The depth and the number of the node that stands for each digest. -/
  shallowest : Std.HashMap Digest (Nat × Nat)

namespace DigestHash

open StructuralHash (Dialogue Request)

def empty : DigestHash := ⟨∅, ∅⟩

def summary? (d : DigestHash) (n : Nat) : Except Fault DigestSummary :=
  match d.summaries[n]? with
  | some s => .ok s
  | none => .error (.nodeNotReady n)

/-- The message and depth of a node whose operands have summaries. -/
def message (d : DigestHash) (n : Nat) : Node → Except Fault (List UInt8 × Nat)
  | .literal b => .ok ([2, b.toUInt8], 0)
  | .input _ => .ok (1 :: littleEndian 8 n, 0)
  | .and a b => do
    let sa ← d.summary? a.node
    let sb ← d.summary? b.node
    return (0 :: Digest.sorted (sa.digest.complementIf a.negated) (sb.digest.complementIf b.negated),
      max sa.depth sb.depth + 1)

def record (d : DigestHash) (n : Nat) (s : DigestSummary) : DigestHash :=
  { d with summaries := d.summaries.insert n s }

def known? (d : DigestHash) (s : DigestSummary) : Option Nat :=
  match d.shallowest[s.digest]? with
  | some (depth, known) => if depth ≤ s.depth then some known else none
  | none => none

def register (d : DigestHash) (n : Nat) (s : DigestSummary) : DigestHash :=
  { d with shallowest := d.shallowest.insert s.digest (s.depth, n) }

variable (hash : List UInt8 → Digest) (nodes : Array Node)

def summarizeNode (d : DigestHash) (n : Nat) : Except Fault DigestHash := do
  let (u, depth) ← d.message n (← node? nodes n)
  return d.record n ⟨depth, hash u⟩

/-- The depth and the digest of a node; the parts of its cone not met before are summarized
first. -/
def summarize (d : DigestHash) (n : Nat) : Except Fault (DigestSummary × DigestHash) := do
  let order ← postOrder nodes (d.summaries.contains ·) [n]
  let d ← order.foldlM (summarizeNode hash nodes) d
  return (← d.summary? n, d)

/-- Returns a registered node of the same digest that is no deeper; registers the node if there is
none. -/
def feed (d : DigestHash) (n : Nat) : Except Fault (Option Nat × DigestHash) := do
  let (s, d) ← d.summarize hash nodes n
  match d.known? s with
  | some known => return (some known, d)
  | none => return (none, d.register n s)

inductive Reply
  | summary (s : DigestSummary)
  | known (k : Option Nat)

def ask (d : DigestHash × List Reply) : Request → Except Fault (DigestHash × List Reply)
  | .summarize n => (d.1.summarize hash nodes n).map fun r => (r.2, d.2 ++ [.summary r.1])
  | .feed n => (d.1.feed hash nodes n).map fun r => (r.2, d.2 ++ [.known r.1])

structure Stands (n : Nat) (m : Summary) (s : DigestSummary) : Prop where
  depth : s.depth = m.depth
  digest : ∃ u, Encodes hash nodes n u ∧ s.digest = hash u

/-- Both hashes have summarized the same nodes, and the same nodes stand for their classes. -/
structure Refines (h : StructuralHash) (d : DigestHash) : Prop where
  consistent : h.Consistent nodes
  digested : ∀ (n : Nat) (m : Summary), h.summaries[n]? = some m →
    ∃ s, d.summaries[n]? = some s ∧ Stands hash nodes n m s
  classified : ∀ (n : Nat) (s : DigestSummary), d.summaries[n]? = some s →
    ∃ m, h.summaries[n]? = some m
  shallowest : ∀ (n : Nat) (m : Summary) (s : DigestSummary), h.summaries[n]? = some m →
    d.summaries[n]? = some s → d.shallowest[s.digest]? = h.shallowest[m.structural]?
  registered : ∀ (x : Digest) (depth k : Nat), d.shallowest[x]? = some (depth, k) →
    ∃ s, d.summaries[k]? = some s ∧ s.digest = x

variable {hash nodes} {h : StructuralHash} {d : DigestHash} {n k : Nat} {m m' : Summary}
  {s s' : DigestSummary} {rank : Nat → Nat}

theorem refines_empty : Refines hash nodes .empty empty where
  consistent := StructuralHash.consistent_empty nodes
  digested n m hm := by simp [StructuralHash.empty] at hm
  classified n s hs := by simp [empty] at hs
  shallowest n m s hm := by simp [StructuralHash.empty] at hm
  registered x depth k hx := by simp [empty] at hx

theorem Stands.push (hs : Stands hash nodes n m s) (node : Node) :
    Stands hash (nodes.push node) n m s := by
  obtain ⟨u, hu, hdigest⟩ := hs.digest
  exact ⟨hs.depth, u, hu.of_grown (by simp), hdigest⟩

theorem Refines.push (R : Refines hash nodes h d) (node : Node) :
    Refines hash (nodes.push node) h d where
  consistent := R.consistent.push node
  digested n m hm := by
    obtain ⟨s, hs, hstands⟩ := R.digested n m hm
    exact ⟨s, hs, hstands.push node⟩
  classified := R.classified
  shallowest := R.shallowest
  registered := R.registered

theorem Refines.stands (R : Refines hash nodes h d) (hm : h.summaries[n]? = some m)
    (hs : d.summaries[n]? = some s) : Stands hash nodes n m s := by
  obtain ⟨s', hs', hstands⟩ := R.digested n m hm
  rwa [Option.some.inj (hs.symm.trans hs')]

theorem Refines.contains_eq (R : Refines hash nodes h d) :
    (d.summaries.contains ·) = (h.summaries.contains ·) := by
  funext n
  rw [Bool.eq_iff_iff, Std.HashMap.contains_eq_isSome_getElem?,
    Std.HashMap.contains_eq_isSome_getElem?, Option.isSome_iff_exists, Option.isSome_iff_exists]
  constructor
  · rintro ⟨s, hs⟩
    exact R.classified n s hs
  · rintro ⟨m, hm⟩
    obtain ⟨s, hs, -⟩ := R.digested n m hm
    exact ⟨s, hs⟩

theorem Refines.summary?_alike (R : Refines hash nodes h d) (n : Nat) :
    Alike (fun m s => h.summaries[n]? = some m ∧ d.summaries[n]? = some s) (h.summary? n)
      (d.summary? n) := by
  unfold StructuralHash.summary? summary?
  cases hm : h.summaries[n]? with
  | none =>
    cases hs : d.summaries[n]? with
    | none => exact .error _
    | some s =>
      obtain ⟨m, hm'⟩ := R.classified n s hs
      cases hm.symm.trans hm'
  | some m =>
    obtain ⟨s, hs, -⟩ := R.digested n m hm
    rw [hs]
    exact .ok ⟨rfl, rfl⟩

theorem Refines.message_alike (R : Refines hash nodes h d) {node : Node}
    (hnode : nodes[n]? = some node) :
    Alike (fun p q => q.2 = p.2 ∧ Encodes hash nodes n q.1) (h.measure n node)
      (d.message n node) := by
  cases node with
  | literal b => exact .ok ⟨rfl, .literal hnode⟩
  | input name => exact .ok ⟨rfl, .input hnode⟩
  | and a b =>
    refine (R.summary?_alike a.node).bind ?_
    rintro ma sa ⟨hma, hsa⟩
    refine (R.summary?_alike b.node).bind ?_
    rintro mb sb ⟨hmb, hsb⟩
    obtain ⟨hda, u, hu, hua⟩ := R.stands hma hsa
    obtain ⟨hdb, v, hv, hvb⟩ := R.stands hmb hsb
    rw [hua, hvb, hda, hdb]
    exact .ok ⟨rfl, .and hnode hu hv⟩

theorem getElem?_record (k : Nat) :
    (d.record n s).summaries[k]? = if n = k then some s else d.summaries[k]? := by
  simp [record, Std.HashMap.getElem?_insert]

theorem getElem?_register (x : Digest) :
    (d.register n s).shallowest[x]? =
      if s.digest = x then some (s.depth, n) else d.shallowest[x]? := by
  simp [register, Std.HashMap.getElem?_insert]

section CollisionFree

variable (hfree : CollisionFree hash nodes) (hsize : nodes.size ≤ 2 ^ 64)

include hfree hsize

theorem Stands.digest_eq_iff (hs : Stands hash nodes n m s) (hs' : Stands hash nodes k m' s')
    (hc : h.Consistent nodes) (hm : h.summaries[n]? = some m) (hm' : h.summaries[k]? = some m') :
    s.digest = s'.digest ↔ m.structural = m'.structural := by
  obtain ⟨u, hu, hdigest⟩ := hs.digest
  obtain ⟨v, hv, hdigest'⟩ := hs'.digest
  rw [hdigest, hdigest', Aig.digest_eq_iff hfree hsize hu hv]
  exact ⟨fun hsame => hc.structural_eq hsame hm hm', hc.sameStructure hm hm'⟩

theorem Refines.digest_eq_iff (R : Refines hash nodes h d) (hm : h.summaries[n]? = some m)
    (hm' : h.summaries[k]? = some m') (hs : d.summaries[n]? = some s)
    (hs' : d.summaries[k]? = some s') : s.digest = s'.digest ↔ m.structural = m'.structural :=
  (R.stands hm hs).digest_eq_iff hfree hsize (R.stands hm' hs') R.consistent hm hm'

/-- A new summary finds the node that stands for its class by the digest as well, since that node
has a summary of its own. -/
theorem Refines.shallowest_eq (R : Refines hash nodes h d) {h' : StructuralHash}
    (hc : h'.Consistent nodes) (hext : h.Extends h') (hm : h'.summaries[n]? = some m)
    (hs : Stands hash nodes n m s) : d.shallowest[s.digest]? = h.shallowest[m.structural]? := by
  have hiff : ∀ {k : Nat} {m' : Summary} {s' : DigestSummary}, h.summaries[k]? = some m' →
      d.summaries[k]? = some s' → (s.digest = s'.digest ↔ m.structural = m'.structural) :=
    fun hm' hs' => hs.digest_eq_iff hfree hsize (R.stands hm' hs') hc hm (hext _ _ hm')
  cases hread : h.shallowest[m.structural]? with
  | some entry =>
    obtain ⟨depth, k⟩ := entry
    obtain ⟨m', hm', hclass, -⟩ := R.consistent.registered _ depth k hread
    obtain ⟨s', hs', -⟩ := R.digested k m' hm'
    rw [(hiff hm' hs').mpr hclass.symm, R.shallowest k m' s' hm' hs', hclass, hread]
  | none =>
    cases hread' : d.shallowest[s.digest]? with
    | none => rfl
    | some entry =>
      obtain ⟨depth, k⟩ := entry
      obtain ⟨s', hs', hdigest⟩ := R.registered _ depth k hread'
      obtain ⟨m', hm'⟩ := R.classified k s' hs'
      have hsame := R.shallowest k m' s' hm' hs'
      rw [hdigest, hread', ← (hiff hm' hs').mp hdigest.symm, hread] at hsame
      cases hsame

theorem Refines.record (R : Refines hash nodes h d) {node : Node} (hnode : nodes[n]? = some node)
    (hn : h.summaries[n]? = none) {shape : Shape} {depth : Nat}
    (hmeasure : h.measure n node = .ok (shape, depth)) {u : List UInt8}
    (hu : Encodes hash nodes n u) :
    Refines hash nodes (h.record n shape depth) (d.record n ⟨depth, hash u⟩) where
  consistent := R.consistent.record hnode hn hmeasure
  digested k m hm := by
    rw [StructuralHash.getElem?_record] at hm
    rw [getElem?_record]
    split_ifs at hm ⊢ with hnk
    · subst hnk
      obtain rfl := Option.some.inj hm
      exact ⟨_, rfl, rfl, u, hu, rfl⟩
    · exact R.digested k m hm
  classified k s hs := by
    rw [getElem?_record] at hs
    rw [StructuralHash.getElem?_record]
    split_ifs at hs ⊢ with hnk
    · exact ⟨_, rfl⟩
    · exact R.classified k s hs
  shallowest k m s hm hs := by
    have hc := R.consistent.record hnode hn hmeasure
    change d.shallowest[s.digest]? = h.shallowest[m.structural]?
    refine R.shallowest_eq hfree hsize hc (StructuralHash.extends_record hn) hm ?_
    rw [StructuralHash.getElem?_record] at hm
    rw [getElem?_record] at hs
    split_ifs at hm hs with hnk
    · subst hnk
      obtain rfl := Option.some.inj hm
      obtain rfl := Option.some.inj hs
      exact ⟨rfl, u, hu, rfl⟩
    · exact R.stands hm hs
  registered x depth' k hx := by
    obtain ⟨s, hs, hdigest⟩ := R.registered x depth' k hx
    refine ⟨s, ?_, hdigest⟩
    rw [getElem?_record, if_neg, hs]
    rintro rfl
    obtain ⟨m, hm⟩ := R.classified n s hs
    cases hn.symm.trans hm

theorem Refines.summarizeNode_alike (R : Refines hash nodes h d) (hlt : n < nodes.size)
    (hn : h.summaries[n]? = none) :
    Alike (fun h' d' => Refines hash nodes h' d' ∧
        ∀ k ≠ n, h.summaries[k]? = none → h'.summaries[k]? = none)
      (StructuralHash.summarizeNode nodes h n) (summarizeNode hash nodes d n) := by
  have hnode : nodes[n]? = some nodes[n] := Array.getElem?_eq_getElem hlt
  unfold StructuralHash.summarizeNode summarizeNode
  rw [node?_eq hnode]
  rcases (R.message_alike hnode).error_or_ok with ⟨f, hmeasure, hmessage⟩ |
    ⟨⟨shape, depth⟩, ⟨u, _⟩, hmeasure, hmessage, rfl, hu⟩
  · simp only [bind, Except.bind, hmeasure, hmessage]
    exact .error f
  · simp only [bind, Except.bind, hmeasure, hmessage]
    refine .ok ⟨R.record hfree hsize hnode hn hmeasure hu, fun k hk hnone => ?_⟩
    rw [StructuralHash.getElem?_record, if_neg hk.symm, hnone]

theorem Refines.foldlM_alike (R : Refines hash nodes h d) {below : Nat → List Nat}
    {order : List Nat}
    (htop : Dag.Topological nodes.size below (h.summaries.contains ·) order) :
    Alike (fun h' d' => Refines hash nodes h' d' ∧
        ∀ k ∉ order, h.summaries[k]? = none → h'.summaries[k]? = none)
      (order.foldlM (StructuralHash.summarizeNode nodes) h)
      (order.foldlM (summarizeNode hash nodes) d) := by
  induction htop with
  | nil => exact .ok ⟨R, fun _ _ hk => hk⟩
  | @concat order n _ hlt hdone hnew _ ih =>
    rw [List.foldlM_append, List.foldlM_append]
    refine ih.bind fun h' d' ⟨R', hothers⟩ => ?_
    have hn : h'.summaries[n]? = none := by
      refine hothers n hnew ?_
      rwa [Std.HashMap.contains_eq_isSome_getElem?, Option.isSome_eq_false_iff,
        Option.isNone_iff_eq_none] at hdone
    rw [List.foldlM_cons, List.foldlM_cons]
    refine (R'.summarizeNode_alike hfree hsize hlt hn).bind fun h'' d'' ⟨R'', hothers'⟩ => ?_
    refine .ok ⟨R'', fun k hk hnone => ?_⟩
    rw [List.mem_append, List.mem_singleton, not_or] at hk
    exact hothers' k hk.2 (hothers k hk.1 hnone)

theorem Refines.summarize_alike (R : Refines hash nodes h d) (G : RankedBy nodes rank)
    (hn : n < nodes.size) :
    Alike (fun p q => Refines hash nodes p.2 q.2 ∧ p.2.summaries[n]? = some p.1 ∧
        q.2.summaries[n]? = some q.1) (h.summarize nodes n) (d.summarize hash nodes n) := by
  have hroots : ∀ k ∈ [n], k < nodes.size := by simpa using hn
  obtain ⟨order, horder, htop, -⟩ := G.postOrder_topological (h.summaries.contains ·) hroots
  unfold StructuralHash.summarize summarize postOrder
  rw [R.contains_eq, horder]
  refine (R.foldlM_alike hfree hsize htop).bind fun h' d' ⟨R', _⟩ => ?_
  refine (R'.summary?_alike n).bind fun m s ⟨hm, hs⟩ => ?_
  exact .ok ⟨R', hm, hs⟩

theorem Refines.register (R : Refines hash nodes h d) (hm : h.summaries[n]? = some m)
    (hs : d.summaries[n]? = some s) : Refines hash nodes (h.register n m) (d.register n s) where
  consistent := R.consistent.register hm
  digested := R.digested
  classified := R.classified
  shallowest k m' s' hm' hs' := by
    have hiff := R.digest_eq_iff hfree hsize hm hm' hs hs'
    rw [StructuralHash.getElem?_register, getElem?_register, (R.stands hm hs).depth]
    simp only [hiff]
    split_ifs
    · rfl
    · exact R.shallowest k m' s' hm' hs'
  registered x depth k hx := by
    rw [getElem?_register] at hx
    split_ifs at hx with hdigest
    · obtain ⟨-, rfl⟩ := Prod.mk.inj (Option.some.inj hx)
      exact ⟨s, hs, hdigest⟩
    · exact R.registered x depth k hx

theorem Refines.feed_alike (R : Refines hash nodes h d) (G : RankedBy nodes rank)
    (hn : n < nodes.size) :
    Alike (fun p q => p.1 = q.1 ∧ Refines hash nodes p.2 q.2) (h.feed nodes n)
      (d.feed hash nodes n) := by
  unfold StructuralHash.feed feed
  refine (R.summarize_alike hfree hsize G hn).bind ?_
  rintro ⟨m, h'⟩ ⟨s, d'⟩ ⟨R', hm, hs⟩
  dsimp only at R' hm hs ⊢
  have hknown : h'.known? m = d'.known? s := by
    have hread := R'.shallowest n m s hm hs
    have hdepth := (R'.stands hm hs).depth
    cases hentry : h'.shallowest[m.structural]? with
    | none => simp [StructuralHash.known?, known?, hread, hentry]
    | some entry => simp [StructuralHash.known?, known?, hread, hentry, hdepth]
  rw [hknown]
  cases d'.known? s with
  | none => exact .ok ⟨rfl, R'.register hfree hsize hm hs⟩
  | some k => exact .ok ⟨rfl, R'⟩

end CollisionFree

/-- The replies give one depth, and a class number and a digest of one node, or they know the same
node. -/
inductive SameReply (hash : List UInt8 → Digest) (nodes : Array Node) (h : StructuralHash) :
    StructuralHash.Reply → Reply → Prop
  | summary {n : Nat} {m : Summary} {s : DigestSummary} (hm : h.summaries[n]? = some m)
      (hs : Stands hash nodes n m s) : SameReply hash nodes h (.summary m) (.summary s)
  | known (k : Option Nat) : SameReply hash nodes h (.known k) (.known k)

theorem SameReply.of_extends {h' : StructuralHash} {r : StructuralHash.Reply} {e : Reply}
    (hr : SameReply hash nodes h r e) (hext : h.Extends h') : SameReply hash nodes h' r e := by
  cases hr with
  | summary hm hs => exact .summary (hext _ _ hm) hs
  | known k => exact .known k

theorem SameReply.push {r : StructuralHash.Reply} {e : Reply} (hr : SameReply hash nodes h r e)
    (node : Node) : SameReply hash (nodes.push node) h r e := by
  cases hr with
  | summary hm hs => exact .summary hm (hs.push node)
  | known k => exact .known k

structure Follows (hash : List UInt8 → Digest) (nodes : Array Node)
    (D : Dialogue) (E : DigestHash × List Reply) : Prop where
  refines : Refines hash nodes D.hash E.1
  replies : List.Forall₂ (SameReply hash nodes D.hash) D.replies E.2

variable {D : Dialogue} {E : DigestHash × List Reply}

theorem follows_start : Follows hash nodes .start (empty, []) := ⟨refines_empty, .nil⟩

theorem Follows.push (F : Follows hash nodes D E) (node : Node) :
    Follows hash (nodes.push node) D E :=
  ⟨F.refines.push node, F.replies.imp fun _ _ hr => hr.push node⟩

theorem Follows.concat (F : Follows hash nodes D E) (R : Refines hash nodes h d)
    (hext : D.hash.Extends h) {r : StructuralHash.Reply} {e : Reply}
    (hr : SameReply hash nodes h r e) :
    Follows hash nodes ⟨h, D.replies ++ [r]⟩ (d, E.2 ++ [e]) :=
  ⟨R, List.rel_append (F.replies.imp fun _ _ hr' => hr'.of_extends hext) (.cons hr .nil)⟩

theorem Follows.ask (F : Follows hash nodes D E) (hfree : CollisionFree hash nodes)
    (hsize : nodes.size ≤ 2 ^ 64) (G : RankedBy nodes rank) {q : Request}
    (hq : q.node < nodes.size) :
    ∃ D' E', D.ask nodes q = .ok D' ∧ ask hash nodes E q = .ok E' ∧ Follows hash nodes D' E' := by
  cases q with
  | summarize n =>
    have hn : n < nodes.size := hq
    obtain ⟨m, h', hsum, hfinds⟩ := F.refines.consistent.summarize G hn
    obtain ⟨⟨s, d'⟩, hsum', R, hm, hs⟩ :=
      (F.refines.summarize_alike hfree hsize G hn).exists_ok hsum
    refine ⟨_, _, ?_, ?_, F.concat R hfinds.keeps (.summary hm (R.stands hm hs))⟩
    · rw [Dialogue.ask, hsum]
      rfl
    · rw [DigestHash.ask, hsum']
      rfl
  | feed n =>
    have hn : n < nodes.size := hq
    obtain ⟨m, h', known, h'', hfinds, hfeeds, hfeed⟩ := F.refines.consistent.feeds G hn
    obtain ⟨⟨_, d'⟩, hfeed', rfl, R⟩ := (F.refines.feed_alike hfree hsize G hn).exists_ok hfeed
    have hext : D.hash.Extends h'' := by
      intro k mk hk
      cases hfeeds <;> exact hfinds.keeps k mk hk
    refine ⟨_, _, ?_, ?_, F.concat R hext (.known known)⟩
    · rw [Dialogue.ask, hfeed]
      rfl
    · rw [DigestHash.ask, hfeed']
      rfl

/-- A node comes to the end of the list, or a hash over the list is asked. -/
inductive Event
  | node (v : Node)
  | request (q : Request)

/-- What an event does to the list, and to the state of a hash that `ask` puts requests to. -/
def Event.apply {δ : Type} (ask : Array Node → δ → Request → Except Fault δ)
    (state : Array Node × δ) : Event → Except Fault (Array Node × δ)
  | node v => .ok (state.1.push v, state.2)
  | request q => (ask state.1 state.2 q).map (state.1, ·)

def grown : Array Node → List Event → Array Node
  | nodes, [] => nodes
  | nodes, .node v :: events => grown (nodes.push v) events
  | nodes, .request _ :: events => grown nodes events

/-- Every request is for a node of the list, which is acyclic by then. -/
def Legal : Array Node → List Event → Prop
  | _, [] => True
  | nodes, .node v :: events => Legal (nodes.push v) events
  | nodes, .request q :: events => Acyclic nodes ∧ q.node < nodes.size ∧ Legal nodes events

section Requests

variable (requests : List Request)

theorem grown_requests (nodes : Array Node) : grown nodes (requests.map .request) = nodes := by
  induction requests with
  | nil => rfl
  | cons q requests ih => exact ih

theorem legal_requests {requests : List Request} (hacyclic : Acyclic nodes)
    (hrequests : ∀ q ∈ requests, q.node < nodes.size) : Legal nodes (requests.map .request) := by
  induction requests with
  | nil => trivial
  | cons q requests ih =>
    refine ⟨hacyclic, hrequests q List.mem_cons_self, ih fun q' hq' => ?_⟩
    exact hrequests q' (List.mem_cons_of_mem q hq')

theorem foldlM_requests {δ : Type} (ask : Array Node → δ → Request → Except Fault δ)
    (nodes : Array Node) (state : δ) :
    (requests.map .request).foldlM (Event.apply ask) (nodes, state) =
      (requests.foldlM (ask nodes) state).map (nodes, ·) := by
  induction requests generalizing state with
  | nil => rfl
  | cons q requests ih =>
    rw [List.map_cons, List.foldlM_cons, List.foldlM_cons, Event.apply]
    cases ask nodes state q with
    | error f => rfl
    | ok next => exact ih next

end Requests

theorem prefix_grown (nodes : Array Node) (events : List Event) :
    nodes.toList <+: (grown nodes events).toList := by
  induction events generalizing nodes with
  | nil => exact List.prefix_refl _
  | cons e events ih =>
    cases e with
    | node v =>
      refine List.IsPrefix.trans ?_ (ih (nodes.push v))
      simp
    | request q => exact ih nodes

/-- Without collisions at the end there have been none before. -/
theorem Follows.run (F : Follows hash nodes D E) {events : List Event}
    (hlegal : Legal nodes events) (hfree : CollisionFree hash (grown nodes events))
    (hsize : (grown nodes events).size ≤ 2 ^ 64) :
    ∃ D' E', events.foldlM (Event.apply Dialogue.ask) (nodes, D) =
        .ok (grown nodes events, D') ∧
      events.foldlM (Event.apply (DigestHash.ask hash)) (nodes, E) =
        .ok (grown nodes events, E') ∧
      Follows hash (grown nodes events) D' E' := by
  induction events generalizing nodes D E with
  | nil => exact ⟨D, E, rfl, rfl, F⟩
  | cons e events ih =>
    cases e with
    | node v => exact ih (F.push v) hlegal hfree hsize
    | request q =>
      obtain ⟨hacyclic, hq, hlegal⟩ := hlegal
      obtain ⟨rank, G⟩ := hacyclic.exists_ranked
      have hprefix := prefix_grown nodes events
      have hle : nodes.size ≤ (grown nodes events).size := by simpa using hprefix.length_le
      obtain ⟨D₁, E₁, hD, hE, F₁⟩ :=
        F.ask (hfree.of_grown hprefix) (Nat.le_trans hle hsize) G hq
      obtain ⟨D', E', hD', hE', F'⟩ := ih F₁ hlegal hfree hsize
      refine ⟨D', E', ?_, ?_, F'⟩
      · rw [List.foldlM_cons, Event.apply, hD]
        exact hD'
      · rw [List.foldlM_cons, Event.apply, hE]
        exact hE'

def Reply.ofClasses (name : Nat → Digest) : StructuralHash.Reply → Reply
  | .summary m => .summary ⟨m.depth, name m.structural⟩
  | .known k => .known k

/-- The replies are the same but for the names of the classes, which differ. -/
def Renamed (replies : List StructuralHash.Reply) (replies' : List Reply) : Prop :=
  ∃ name : Nat → Digest, replies' = replies.map (Reply.ofClasses name) ∧
    ∀ m m', .summary m ∈ replies → .summary m' ∈ replies →
      name m.structural = name m'.structural → m.structural = m'.structural

theorem Follows.exists_stands (F : Follows hash nodes D E) (hm : .summary m ∈ D.replies) :
    ∃ n s, D.hash.summaries[n]? = some m ∧ Stands hash nodes n m s := by
  obtain ⟨i, hi, hget⟩ := List.getElem_of_mem hm
  have hr := F.replies.get hi (F.replies.length_eq ▸ hi)
  rw [List.get_eq_getElem, hget] at hr
  generalize E.2.get _ = e at hr
  cases hr with
  | summary hm hs => exact ⟨_, _, hm, hs⟩

theorem Follows.replies_eq (F : Follows hash nodes D E) {name : Nat → Digest}
    (hname : ∀ (n : Nat) (m : Summary) (s : DigestSummary), D.hash.summaries[n]? = some m →
      Stands hash nodes n m s → name m.structural = s.digest) :
    E.2 = D.replies.map (Reply.ofClasses name) := by
  have hreplies : List.Forall₂ (fun r e => Reply.ofClasses name r = e) D.replies E.2 := by
    refine F.replies.imp fun r e hr => ?_
    cases hr with
    | @summary n m s hm hs => rw [Reply.ofClasses, hname n m s hm hs, ← hs.depth]
    | known k => rfl
  have hmap := List.forall₂_map_left_iff.mpr hreplies
  rw [List.forall₂_eq_eq_eq] at hmap
  exact hmap.symm

section Renaming

variable (hfree : CollisionFree hash nodes) (hsize : nodes.size ≤ 2 ^ 64)

include hfree hsize

theorem exists_names (hc : h.Consistent nodes) :
    ∃ name : Nat → Digest, ∀ (n : Nat) (m : Summary) (s : DigestSummary),
      h.summaries[n]? = some m → Stands hash nodes n m s → name m.structural = s.digest := by
  have hname : ∀ c, ∃ x, ∀ (n : Nat) (m : Summary) (s : DigestSummary), h.summaries[n]? = some m →
      Stands hash nodes n m s → m.structural = c → x = s.digest := by
    intro c
    by_cases hclass : ∃ n m s, h.summaries[n]? = some m ∧ Stands hash nodes n m s ∧ m.structural = c
    · obtain ⟨n, m, s, hm, hs, hmc⟩ := hclass
      refine ⟨s.digest, fun k m' s' hm' hs' hmc' => ?_⟩
      exact (hs.digest_eq_iff hfree hsize hs' hc hm hm').mpr (hmc.trans hmc'.symm)
    · exact ⟨hash [], fun n m s hm hs hmc => absurd ⟨n, m, s, hm, hs, hmc⟩ hclass⟩
  choose name hname using hname
  exact ⟨name, fun n m s hm hs => hname _ n m s hm hs rfl⟩

theorem Follows.renamed (F : Follows hash nodes D E) : Renamed D.replies E.2 := by
  obtain ⟨name, hname⟩ := exists_names hfree hsize F.refines.consistent
  refine ⟨name, F.replies_eq hname, fun m m' hm hm' hnames => ?_⟩
  obtain ⟨n, s, hm, hs⟩ := F.exists_stands hm
  obtain ⟨k, s', hm', hs'⟩ := F.exists_stands hm'
  rw [hname n m s hm hs, hname k m' s' hm' hs'] at hnames
  exact (hs.digest_eq_iff hfree hsize hs' F.refines.consistent hm hm').mp hnames

end Renaming

/-- While a list grows and its messages do not collide, both hashes answer every request, and alike
but for the names of the classes: different classes have different digests. -/
theorem replies_renamed {events : List Event} (hlegal : Legal nodes events)
    (hfree : CollisionFree hash (grown nodes events))
    (hsize : (grown nodes events).size ≤ 2 ^ 64) :
    ∃ D E, events.foldlM (Event.apply Dialogue.ask) (nodes, .start) =
        .ok (grown nodes events, D) ∧
      events.foldlM (Event.apply (ask hash)) (nodes, (empty, [])) = .ok (grown nodes events, E) ∧
      Refines hash (grown nodes events) D.hash E.1 ∧ Renamed D.replies E.2 := by
  obtain ⟨D, E, hD, hE, F⟩ := Follows.run follows_start hlegal hfree hsize
  exact ⟨D, E, hD, hE, F.refines, F.renamed hfree hsize⟩

/-- The case of a list that is there from the start. -/
theorem run_renamed (hacyclic : Acyclic nodes) {requests : List Request}
    (hrequests : ∀ q ∈ requests, q.node < nodes.size) (hfree : CollisionFree hash nodes)
    (hsize : nodes.size ≤ 2 ^ 64) :
    ∃ D E, Dialogue.run nodes requests = .ok D ∧
      requests.foldlM (ask hash nodes) (empty, []) = .ok E ∧ Renamed D.replies E.2 := by
  have hgrown := grown_requests requests nodes
  obtain ⟨D, E, hD, hE, -, hreplies⟩ := replies_renamed (legal_requests hacyclic hrequests)
    (hgrown.symm ▸ hfree) (hgrown.symm ▸ hsize)
  rw [foldlM_requests, map_eq_ok] at hD hE
  obtain ⟨D', hD, hpair⟩ := hD
  obtain ⟨E', hE, hpair'⟩ := hE
  obtain ⟨-, rfl⟩ := Prod.mk.inj hpair
  obtain ⟨-, rfl⟩ := Prod.mk.inj hpair'
  exact ⟨D', E', hD, hE, hreplies⟩

end DigestHash
end Aig
end LogicResynthesis

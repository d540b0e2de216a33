import Mathlib.Data.List.Find
import Mathlib.Data.List.Induction
import LogicResynthesis.Proofs.Aig.Digests
import LogicResynthesis.Proofs.Fault

/-!
# What a structural hash replies

A hash is asked for summaries of the nodes of an acyclic list and is fed some of
them, in any order. Each reply depends on the list and on the nodes fed before,
but not on the summaries asked for in between. The class numbers tell apart just
those nodes that digests without collisions tell apart.
-/

namespace LogicResynthesis
namespace Aig
namespace StructuralHash

inductive Request
  | summarize (n : Nat)
  | feed (n : Nat)

namespace Request

def node : Request → Nat
  | summarize n | feed n => n

def fed? : Request → Option Nat
  | summarize _ => none
  | feed n => some n

end Request

def fedNodes (requests : List Request) : List Nat := requests.filterMap Request.fed?

inductive Reply
  | summary (m : Summary)
  | known (k : Option Nat)

structure Dialogue where
  hash : StructuralHash
  replies : List Reply

namespace Dialogue

def start : Dialogue := ⟨.empty, []⟩

def ask (nodes : Array Node) (d : Dialogue) : Request → Except Fault Dialogue
  | .summarize n => (d.hash.summarize nodes n).map fun r => ⟨r.2, d.replies ++ [.summary r.1]⟩
  | .feed n => (d.hash.feed nodes n).map fun r => ⟨r.2, d.replies ++ [.known r.1]⟩

def run (nodes : Array Node) (requests : List Request) : Except Fault Dialogue :=
  requests.foldlM (ask nodes) start

end Dialogue

open Classical in
/-- The first of some nodes that is structurally equal to `n`. -/
noncomputable def firstAlike (nodes : Array Node) (fed : List Nat) (n : Nat) : Option Nat :=
  fed.find? fun k => decide (SameStructure nodes k n)

/-- Replies with the depth of each node, one class number for just the nodes that are structurally
equal and have one digest, and the first structurally equal one of the nodes fed before. -/
structure Exact (nodes : Array Node) (requests : List Request) (replies : List Reply) : Prop where
  length : replies.length = requests.length
  depth : ∀ i n : Nat, requests[i]? = some (.summarize n) →
    ∃ m, replies[i]? = some (.summary m) ∧ HasDepth nodes n m.depth
  structural : ∀ (i j n k : Nat) (m m' : Summary), requests[i]? = some (.summarize n) →
    requests[j]? = some (.summarize k) → replies[i]? = some (.summary m) →
    replies[j]? = some (.summary m') → (m.structural = m'.structural ↔ SameStructure nodes n k)
  digest : ∀ hash : List UInt8 → Digest, CollisionFree hash nodes → nodes.size ≤ 2 ^ 64 →
    ∀ (i j n k : Nat) (m m' : Summary), requests[i]? = some (.summarize n) →
      requests[j]? = some (.summarize k) → replies[i]? = some (.summary m) →
      replies[j]? = some (.summary m') → ∃ u v, Encodes hash nodes n u ∧ Encodes hash nodes k v ∧
        (hash u = hash v ↔ m.structural = m'.structural)
  known : ∀ i n : Nat, requests[i]? = some (.feed n) →
    replies[i]? = some (.known (firstAlike nodes (fedNodes (requests.take i)) n))

def structural? (h : StructuralHash) (k : Nat) : Option Nat := h.summaries[k]?.map (·.structural)

/-- The fed nodes have summaries, and the first of each class stands for it. -/
structure Remembers (h : StructuralHash) (nodes : Array Node) (fed : List Nat) : Prop where
  consistent : h.Consistent nodes
  summarized : ∀ k ∈ fed, ∃ m, h.summaries[k]? = some m
  first : ∀ c : Nat, h.shallowest[c]?.map (·.2) = fed.find? fun k => h.structural? k = some c

theorem remembers_empty (nodes : Array Node) : Remembers empty nodes [] where
  consistent := consistent_empty nodes
  summarized := by simp
  first c := by simp [empty]

variable {h h' h'' : StructuralHash} {nodes : Array Node} {fed : List Nat} {n : Nat} {m : Summary}

theorem Remembers.push (hr : h.Remembers nodes fed) (node : Node) :
    h.Remembers (nodes.push node) fed :=
  ⟨hr.consistent.push node, hr.summarized, hr.first⟩

theorem Remembers.finds (hr : h.Remembers nodes fed) (hfinds : h.Finds nodes n m h') :
    h'.Remembers nodes fed where
  consistent := hfinds.consistent
  summarized k hk := by
    obtain ⟨mk, hmk⟩ := hr.summarized k hk
    exact ⟨mk, hfinds.keeps k mk hmk⟩
  first c := by
    rw [hfinds.shallowest, hr.first]
    apply List.find?_congr
    intro k hk
    obtain ⟨mk, hmk⟩ := hr.summarized k hk
    simp only [structural?, hmk, hfinds.keeps k mk hmk]

theorem Remembers.firstAlike_eq (hr : h.Remembers nodes fed) (hm : h.summaries[n]? = some m) :
    h.shallowest[m.structural]?.map (·.2) = firstAlike nodes fed n := by
  rw [hr.first, firstAlike]
  apply List.find?_congr
  intro k hk
  obtain ⟨mk, hmk⟩ := hr.summarized k hk
  have hsame : mk.structural = m.structural ↔ SameStructure nodes k n :=
    ⟨hr.consistent.sameStructure hmk hm, fun hs => hr.consistent.structural_eq hs hmk hm⟩
  have hk' : h.structural? k = some mk.structural := by simp [structural?, hmk]
  rw [decide_eq_decide, hk', Option.some.injEq, hsame]

theorem Remembers.feeds (hr : h.Remembers nodes fed) (hfinds : h.Finds nodes n m h')
    {known : Option Nat} (hfeeds : Feeds n m h' known h'') :
    h''.Remembers nodes (fed ++ [n]) ∧ known = firstAlike nodes fed n := by
  have hr' := hr.finds hfinds
  have hknown := hr'.firstAlike_eq hfinds.summary
  have hfed : ∀ k ∈ fed ++ [n], ∃ m, h'.summaries[k]? = some m := by
    intro k hk
    rcases List.mem_append.mp hk with hk | hk
    · exact hr'.summarized k hk
    · rw [List.mem_singleton.mp hk]
      exact ⟨m, hfinds.summary⟩
  have hn : h'.structural? n = some m.structural := by simp [structural?, hfinds.summary]
  refine ⟨⟨hfeeds.consistent hfinds, ?_, ?_⟩, ?_⟩
  · cases hfeeds <;> exact hfed
  · intro c
    have hfirst := hr'.first c
    rw [List.find?_append, List.find?_singleton]
    cases hfeeds with
    | known hread =>
      -- The class has its first node already, and one more at the end is not found.
      by_cases hc : m.structural = c
      · subst hc
        rw [← hfirst, hread]
        rfl
      · simp [← hfirst, hn, hc]
    | new hnone =>
      have hsame : ∀ k, (h'.register n m).structural? k = h'.structural? k := fun _ => rfl
      simp only [hsame, ← hfirst, getElem?_register, hn]
      by_cases hc : m.structural = c
      · subst hc
        simp [hnone]
      · simp [hc]
  · rw [← hknown]
    cases hfeeds with
    | known hread => rw [hread]; rfl
    | new hnone => rw [hnone]; rfl

theorem getElem?_concat_or {α : Type} {l : List α} {a b : α} {i : Nat}
    (h : (l ++ [a])[i]? = some b) : l[i]? = some b ∨ i = l.length ∧ b = a := by
  have hi := (List.getElem?_eq_some_iff.mp h).1
  rw [List.length_append, List.length_singleton] at hi
  rcases Nat.lt_or_eq_of_le (Nat.le_of_lt_succ hi) with hi | rfl
  · rw [List.getElem?_append_left hi] at h
    exact .inl h
  · rw [List.getElem?_concat_length] at h
    exact .inr ⟨rfl, (Option.some.inj h).symm⟩

namespace Dialogue

/-- Each reply is the right one, and the hash still has the summaries that it replied with. -/
structure Answered (nodes : Array Node) (requests : List Request) (d : Dialogue) : Prop where
  remembers : d.hash.Remembers nodes (fedNodes requests)
  length : d.replies.length = requests.length
  summary : ∀ i n : Nat, requests[i]? = some (.summarize n) →
    ∃ m, d.replies[i]? = some (.summary m) ∧ d.hash.summaries[n]? = some m
  known : ∀ i n : Nat, requests[i]? = some (.feed n) →
    d.replies[i]? = some (.known (firstAlike nodes (fedNodes (requests.take i)) n))

variable {d : Dialogue} {requests : List Request} {rank : Nat → Nat}

theorem answered_start (nodes : Array Node) : start.Answered nodes [] where
  remembers := remembers_empty nodes
  length := rfl
  summary := by simp
  known := by simp

theorem fedNodes_concat (requests : List Request) (q : Request) :
    fedNodes (requests ++ [q]) = fedNodes requests ++ q.fed?.toList := by
  cases q <;> simp [fedNodes, Request.fed?]

theorem Answered.concat (hd : d.Answered nodes requests) {q : Request} {r : Reply}
    (hr : h.Remembers nodes (fedNodes (requests ++ [q]))) (hext : d.hash.Extends h)
    (hsummary : ∀ n, q = .summarize n → ∃ m, r = .summary m ∧ h.summaries[n]? = some m)
    (hknown : ∀ n, q = .feed n → r = .known (firstAlike nodes (fedNodes requests) n)) :
    Answered nodes (requests ++ [q]) ⟨h, d.replies ++ [r]⟩ := by
  have hold : ∀ {i : Nat} {r' : Reply}, d.replies[i]? = some r' →
      (d.replies ++ [r])[i]? = some r' := by
    intro i r' hi
    rw [List.getElem?_append_left (List.getElem?_eq_some_iff.mp hi).1, hi]
  have hnew : (d.replies ++ [r])[requests.length]? = some r := by
    rw [← hd.length, List.getElem?_concat_length]
  refine ⟨hr, by simp [hd.length], ?_, ?_⟩
  · intro i n hi
    rcases getElem?_concat_or hi with hi | ⟨rfl, hq⟩
    · obtain ⟨m, hm, hkept⟩ := hd.summary i n hi
      exact ⟨m, hold hm, hext n m hkept⟩
    · obtain ⟨m, rfl, hm⟩ := hsummary n hq.symm
      exact ⟨m, hnew, hm⟩
  · intro i n hi
    rcases getElem?_concat_or hi with hi | ⟨rfl, hq⟩
    · have hlt := (List.getElem?_eq_some_iff.mp hi).1
      rw [List.take_append_of_le_length (Nat.le_of_lt hlt)]
      exact hold (hd.known i n hi)
    · rw [List.take_left, ← hknown n hq.symm]
      exact hnew

theorem Answered.ask (hd : d.Answered nodes requests) (G : RankedBy nodes rank) {q : Request}
    (hq : q.node < nodes.size) :
    ∃ d', d.ask nodes q = .ok d' ∧ d'.Answered nodes (requests ++ [q]) := by
  cases q with
  | summarize n =>
    have hn : n < nodes.size := hq
    obtain ⟨m, h', hsum, hfinds⟩ := hd.remembers.consistent.summarize G hn
    refine ⟨⟨h', d.replies ++ [.summary m]⟩, ?_, ?_⟩
    · rw [Dialogue.ask, hsum]
      rfl
    · apply hd.concat _ hfinds.keeps
      · rintro _ ⟨⟩
        exact ⟨m, rfl, hfinds.summary⟩
      · rintro _ ⟨⟩
      · simpa [fedNodes_concat, Request.fed?] using hd.remembers.finds hfinds
  | feed n =>
    have hn : n < nodes.size := hq
    obtain ⟨m, h', known, h'', hfinds, hfeeds, hfeed⟩ := hd.remembers.consistent.feeds G hn
    obtain ⟨hr, hknown⟩ := hd.remembers.feeds hfinds hfeeds
    refine ⟨⟨h'', d.replies ++ [.known known]⟩, ?_, ?_⟩
    · rw [Dialogue.ask, hfeed]
      rfl
    · apply hd.concat
      · rwa [fedNodes_concat]
      · intro k mk hk
        cases hfeeds <;> exact hfinds.keeps k mk hk
      · rintro _ ⟨⟩
      · rintro _ ⟨⟩
        rw [hknown]

theorem answered_run (G : RankedBy nodes rank) (hrequests : ∀ q ∈ requests, q.node < nodes.size) :
    ∃ d, run nodes requests = .ok d ∧ d.Answered nodes requests := by
  induction requests using List.reverseRecOn with
  | nil => exact ⟨start, rfl, answered_start nodes⟩
  | append_singleton requests q ih =>
    obtain ⟨d, hrun, hd⟩ := ih fun q' hq' => hrequests q' (List.mem_append_left _ hq')
    obtain ⟨d', hask, hd'⟩ := hd.ask G (hrequests q (by simp))
    refine ⟨d', ?_, hd'⟩
    unfold run at hrun ⊢
    rw [List.foldlM_append, hrun]
    simp only [bind, Except.bind, List.foldlM_cons, hask]
    rfl

theorem Answered.exact (hd : d.Answered nodes requests) : Exact nodes requests d.replies := by
  have hsame : ∀ (i j n k : Nat) (m m' : Summary), requests[i]? = some (.summarize n) →
      requests[j]? = some (.summarize k) → d.replies[i]? = some (.summary m) →
      d.replies[j]? = some (.summary m') →
      (m.structural = m'.structural ↔ SameStructure nodes n k) ∧
        HasDepth nodes n m.depth ∧ HasDepth nodes k m'.depth := by
    intro i j n k m m' hi hj hm hm'
    obtain ⟨mn, hreply, hmn⟩ := hd.summary i n hi
    obtain ⟨mk, hreply', hmk⟩ := hd.summary j k hj
    obtain rfl := Reply.summary.inj (Option.some.inj (hm.symm.trans hreply))
    obtain rfl := Reply.summary.inj (Option.some.inj (hm'.symm.trans hreply'))
    have hc := hd.remembers.consistent
    exact ⟨⟨hc.sameStructure hmn hmk, fun hs => hc.structural_eq hs hmn hmk⟩, hc.hasDepth hmn,
      hc.hasDepth hmk⟩
  refine ⟨hd.length, ?_, ?_, ?_, hd.known⟩
  · intro i n hi
    obtain ⟨m, hreply, hm⟩ := hd.summary i n hi
    exact ⟨m, hreply, hd.remembers.consistent.hasDepth hm⟩
  · intro i j n k m m' hi hj hm hm'
    exact (hsame i j n k m m' hi hj hm hm').1
  · intro hash hfree hsize i j n k m m' hi hj hm hm'
    obtain ⟨hclass, hn, hk⟩ := hsame i j n k m m' hi hj hm hm'
    obtain ⟨u, hu⟩ := Encodes.exists_of_hasDepth hash hn
    obtain ⟨v, hv⟩ := Encodes.exists_of_hasDepth hash hk
    exact ⟨u, v, hu, hv, (digest_eq_iff hfree hsize hu hv).trans hclass.symm⟩

end Dialogue

/-- A hash answers every request over an acyclic list, and its replies decide structural
equality. -/
theorem replies_decide_structure {nodes : Array Node} (hacyclic : Acyclic nodes)
    {requests : List Request} (hrequests : ∀ q ∈ requests, q.node < nodes.size) :
    ∃ d, Dialogue.run nodes requests = .ok d ∧ Exact nodes requests d.replies := by
  obtain ⟨rank, G⟩ := hacyclic.exists_ranked
  obtain ⟨d, hrun, hd⟩ := Dialogue.answered_run G hrequests
  exact ⟨d, hrun, hd.exact⟩

section SwappedGates

/-- Two gates over the same operands in either order; the first of them refers forward. -/
def swappedGates : Array Node :=
  #[.and ⟨1, false⟩ ⟨2, true⟩, .input "a", .input "b", .and ⟨2, true⟩ ⟨1, false⟩]

def swappedRequests : List Request := [.summarize 3, .feed 0, .summarize 0, .feed 3]

theorem swappedGates_and {n : Nat} {a b : Signal} (h : swappedGates[n]? = some (.and a b)) :
    n = 0 ∧ a = ⟨1, false⟩ ∧ b = ⟨2, true⟩ ∨ n = 3 ∧ a = ⟨2, true⟩ ∧ b = ⟨1, false⟩ := by
  rcases n with _ | _ | _ | _ | n <;> simp [swappedGates] at h
  · exact .inl ⟨rfl, h.1.symm, h.2.symm⟩
  · exact .inr ⟨rfl, h.1.symm, h.2.symm⟩

theorem acyclic_swappedGates : Acyclic swappedGates where
  operands_lt n a b h := by
    rcases swappedGates_and h with ⟨-, rfl, rfl⟩ | ⟨-, rfl, rfl⟩ <;> decide
  acyclic := by
    have hrank : ∀ n, ∀ m ∈ faninsOf swappedGates n,
        (if m = 0 ∨ m = 3 then 1 else 0) < if n = 0 ∨ n = 3 then 1 else 0 := by
      intro n m hm
      rcases n with _ | _ | _ | _ | n <;>
        simp [faninsOf, listAt, swappedGates, Node.fanins] at hm <;>
        rcases hm with rfl | rfl <;> decide
    exact Dag.acyclic_of_rank hrank

/-- The digests of the nodes of `swappedGates`, by their messages. -/
def swappedDigest (u : List UInt8) : Digest :=
  if u = 1 :: littleEndian 8 1 then
    #v[137, 190, 69, 179, 17, 150, 32, 210, 141, 93, 172, 177, 221, 88, 155, 2,
      238, 37, 154, 223, 38, 113, 211, 70, 134, 68, 93, 165, 71, 161, 136, 32]
  else if u = 1 :: littleEndian 8 2 then
    #v[30, 24, 169, 174, 1, 100, 229, 202, 231, 138, 202, 216, 13, 217, 138, 75,
      128, 207, 123, 244, 26, 151, 247, 211, 185, 207, 62, 191, 49, 142, 43, 217]
  else
    #v[247, 52, 228, 50, 108, 114, 99, 240, 172, 65, 131, 98, 103, 68, 188, 35,
      253, 116, 247, 34, 221, 126, 135, 201, 94, 35, 85, 207, 131, 255, 230, 37]

def swappedMessages : List (List UInt8) :=
  let d := swappedDigest (1 :: littleEndian 8 1)
  let e := (swappedDigest (1 :: littleEndian 8 2)).complement
  [1 :: littleEndian 8 1, 1 :: littleEndian 8 2, 0 :: d.sorted e]

theorem mem_swappedMessages {n : Nat} {u : List UInt8}
    (h : Encodes swappedDigest swappedGates n u) : u ∈ swappedMessages := by
  have h1 : swappedGates[1]? = some (.input "a") := rfl
  have h2 : swappedGates[2]? = some (.input "b") := rfl
  cases h with
  | literal hn => rcases n with _ | _ | _ | _ | n <;> simp [swappedGates] at hn
  | input hn =>
    rcases n with _ | _ | _ | _ | n <;> simp [swappedGates] at hn <;> simp [swappedMessages]
  | and hn ha hb =>
    rcases swappedGates_and hn with ⟨-, rfl, rfl⟩ | ⟨-, rfl, rfl⟩
    · rw [(Encodes.input_iff h1).mp ha, (Encodes.input_iff h2).mp hb]
      simp [swappedMessages, Digest.complementIf]
    · rw [(Encodes.input_iff h2).mp ha, (Encodes.input_iff h1).mp hb, Digest.sorted_comm]
      simp [swappedMessages, Digest.complementIf]

theorem collisionFree_swappedDigest : CollisionFree swappedDigest swappedGates where
  injective n k u v hu hv h := by
    have hall : ∀ u ∈ swappedMessages, ∀ v ∈ swappedMessages,
      swappedDigest u = swappedDigest v → u = v := by decide +kernel
    exact hall u (mem_swappedMessages hu) v (mem_swappedMessages hv) h
  no_complement n k u v hu hv := by
    have hall : ∀ u ∈ swappedMessages, ∀ v ∈ swappedMessages,
      swappedDigest u ≠ (swappedDigest v).complement := by decide +kernel
    exact hall u (mem_swappedMessages hu) v (mem_swappedMessages hv)

/-- The later of the two gates is answered by the earlier one, and they have one digest. -/
theorem replies_decide_structure_swapped :
    Acyclic swappedGates ∧ (∀ q ∈ swappedRequests, q.node < swappedGates.size) ∧
      CollisionFree swappedDigest swappedGates ∧
      ∃ d, Dialogue.run swappedGates swappedRequests = .ok d ∧
        Exact swappedGates swappedRequests d.replies ∧
        d.replies[3]? = some (.known (some 0)) ∧
        ∃ u v, Encodes swappedDigest swappedGates 0 u ∧ Encodes swappedDigest swappedGates 3 v ∧
          swappedDigest u = swappedDigest v := by
  have hrequests : ∀ q ∈ swappedRequests, q.node < swappedGates.size := by decide
  obtain ⟨d, hrun, hexact⟩ := replies_decide_structure acyclic_swappedGates hrequests
  have hsame : SameStructure swappedGates 0 3 :=
    .swapped rfl rfl (.input rfl) rfl (.input rfl) rfl
  refine ⟨acyclic_swappedGates, hrequests, collisionFree_swappedDigest, d, hrun, hexact, ?_, ?_⟩
  · rw [hexact.known 3 3 rfl]
    simp [swappedRequests, fedNodes, Request.fed?, firstAlike, hsame]
  · obtain ⟨m, hm, -⟩ := hexact.depth 2 0 rfl
    obtain ⟨m', hm', -⟩ := hexact.depth 0 3 rfl
    have hclass := (hexact.structural 2 0 0 3 m m' rfl rfl hm hm').mpr hsame
    obtain ⟨u, v, hu, hv, hdigest⟩ := hexact.digest swappedDigest collisionFree_swappedDigest
      (by decide) 2 0 0 3 m m' rfl rfl hm hm'
    exact ⟨u, v, hu, hv, hdigest.mpr hclass⟩

end SwappedGates

end StructuralHash
end Aig
end LogicResynthesis

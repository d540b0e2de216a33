import Mathlib.Data.List.Permutation
import LogicResynthesis.Proofs.IndexList.Encoding
import LogicResynthesis.Proofs.Resynthesis.Enumeration

/-!
# Stopping a query

A query puts each offer to a callback, and stops when the callback refuses one.
The calls are written down together with the target at the time of each call. A
run that is refused is the run that is never refused, cut off after the first
call that is refused: nothing is built for the candidates that come later.
-/

namespace LogicResynthesis
namespace Engine

open Npn (ClassTable Transform)

/-- A call of the callback: the offer, and the target as it is while the callback is asked. -/
structure Ask (σ : Type) where
  offer : Signal
  target : σ

/-- The calls that a run makes in order, and the fault that it ends with, if any. -/
structure Transcript (σ : Type) where
  asks : List (Ask σ)
  fault : Option Fault

namespace Transcript

variable {σ : Type}

def offers (r : Transcript σ) : List Signal := r.asks.map (·.offer)

def cons (ask : Ask σ) (r : Transcript σ) : Transcript σ := { r with asks := ask :: r.asks }

/-- What a run on the target returns: the target is left as it was at the last call. -/
def outcome (r : Transcript σ) (target : σ) : Except Fault (Outcome σ) :=
  match r.fault with
  | some f => .error f
  | none => .ok ⟨r.offers, (r.asks.getLast?.map (·.target)).getD target⟩

theorem outcome_cons (ask : Ask σ) (r : Transcript σ) (target : σ) :
    (r.cons ask).outcome target =
      (r.outcome ask.target).map fun o => ⟨ask.offer :: o.offers, o.target⟩ := by
  unfold outcome
  cases hfault : r.fault with
  | some f => simp [cons, hfault, Except.map]
  | none =>
    cases hlast : r.asks.getLast? <;>
      simp [cons, hfault, offers, List.getLast?_cons, hlast, Except.map]

theorem offers_of_outcome {r : Transcript σ} {target : σ} {o : Outcome σ}
    (h : r.outcome target = .ok o) : o.offers = r.offers := by
  unfold outcome at h
  cases hfault : r.fault with
  | some f =>
    rw [hfault] at h
    cases h
  | none =>
    rw [hfault] at h
    obtain rfl := Except.ok.inj h
    rfl

theorem outcome_take {r : Transcript σ} {k : Nat} (hk : 0 < k) {last : Ask σ}
    (hlast : r.asks[k - 1]? = some last) (target : σ) :
    outcome ⟨r.asks.take k, none⟩ target = .ok ⟨r.offers.take k, last.target⟩ := by
  have hgetLast : (r.asks.take k).getLast? = some last := by
    rw [List.getLast?_take, if_neg hk.ne', hlast, Option.some_or]
  simp [outcome, offers, hgetLast]

end Transcript

section Runs

variable {σ : Type} [Network σ]

/-- The calls while copies of candidates are offered. The callback goes by all offers so far. -/
def offerTranscript (e : Engine) (t : Transform) :
    (List Signal → Bool) → List Signal → Copy σ → Transcript σ
  | _, [], _ => ⟨[], none⟩
  | accept, candidate :: rest, c =>
    match Copy.addCone e.library c candidate.node with
    | .error f => ⟨[], some f⟩
    | .ok (s, c) =>
      let offer := s.complementIf (candidate.negated != t.polarity.output)
      if accept [offer] then
        (offerTranscript e t (fun later => accept (offer :: later)) rest c).cons ⟨offer, c.target⟩
      else ⟨[⟨offer, c.target⟩], none⟩

/-- The calls of a query. -/
def transcript (e : Engine) (function : Table) (leaves : List Signal)
    (accept : List Signal → Bool) (target : σ) : Transcript σ :=
  match function.toTable4? with
  | none => ⟨[], none⟩
  | some f =>
    let entry := ClassTable.standard.lookup f
    match e.index.get? entry.representative with
    | none => ⟨[], none⟩
    | some candidates =>
      match e.seed entry.transform leaves with
      | .error f => ⟨[], some f⟩
      | .ok memo => offerTranscript e entry.transform accept candidates ⟨memo, target⟩

variable {e : Engine} {t : Transform} {function : Table} {leaves : List Signal}

theorem offerAll_eq_transcript (accept : List Signal → Bool) (candidates offers : List Signal)
    (c : Copy σ) :
    offerAll e t accept candidates offers c =
      ((offerTranscript e t (fun later => accept (offers ++ later)) candidates c).outcome
        c.target).map fun o => ⟨offers ++ o.offers, o.target⟩ := by
  induction candidates generalizing offers c with
  | nil => simp [offerAll, offerTranscript, Transcript.outcome, Transcript.offers, Except.map]
  | cons candidate rest ih =>
    unfold offerAll offerTranscript
    cases Copy.addCone e.library c candidate.node with
    | error f => rfl
    | ok r =>
      obtain ⟨s, c'⟩ := r
      dsimp only
      split_ifs
      · rw [ih, Transcript.outcome_cons]
        simp only [List.append_assoc, List.singleton_append]
        cases Transcript.outcome _ c'.target <;> simp [Except.map]
      · rfl

/-- A query returns what its transcript says. -/
theorem query_eq_transcript (accept : List Signal → Bool) (target : σ) :
    e.query function leaves accept target =
      (e.transcript function leaves accept target).outcome target := by
  unfold query transcript
  cases function.toTable4? with
  | none => rfl
  | some f =>
    dsimp only
    cases e.index.get? (ClassTable.standard.lookup f).representative with
    | none => rfl
    | some candidates =>
      dsimp only
      cases e.seed (ClassTable.standard.lookup f).transform leaves with
      | error f => rfl
      | ok memo =>
        dsimp only
        rw [offerAll_eq_transcript]
        simp only [List.nil_append]
        cases Transcript.outcome _ target <;> rfl

end Runs

/-- The callback answers `false` for the first time at offer `k`, counted from 1. -/
structure FirstRefusal (accept : List Signal → Bool) (offers : List Signal) (k : Nat) : Prop where
  pos : 0 < k
  le : k ≤ offers.length
  refused : accept (offers.take k) = false
  accepted : ∀ j, 0 < j → j < k → accept (offers.take j) = true

section Refusal

variable {accept : List Signal → Bool} {offers : List Signal} {offer : Signal} {k n : Nat}

theorem FirstRefusal.unique {k' : Nat} (h : FirstRefusal accept offers k)
    (h' : FirstRefusal accept offers k') : k = k' := by
  rcases Nat.lt_trichotomy k k' with hlt | heq | hlt
  · exact absurd (h'.accepted k h.pos hlt) (by simp [h.refused])
  · exact heq
  · exact absurd (h.accepted k' h'.pos hlt) (by simp [h'.refused])

theorem firstRefusal_nil : ¬FirstRefusal accept [] k := by
  intro h
  exact absurd h.pos (Nat.not_lt.mpr h.le)

theorem firstRefusal_cons_of_refused (h : accept [offer] = false) :
    FirstRefusal accept (offer :: offers) k ↔ k = 1 := by
  have hfirst : FirstRefusal accept (offer :: offers) 1 :=
    ⟨Nat.one_pos, Nat.le_add_left 1 _, h, fun j hpos hlt => absurd hlt (Nat.not_lt.mpr hpos)⟩
  constructor
  · intro hk
    exact hk.unique hfirst
  · rintro rfl
    exact hfirst

theorem firstRefusal_cons_of_accepted (h : accept [offer] = true) :
    FirstRefusal accept (offer :: offers) (k + 1) ↔
      FirstRefusal (fun later => accept (offer :: later)) offers k := by
  constructor
  · intro hk
    have hpos : 0 < k := by
      by_contra hzero
      obtain rfl := Nat.eq_zero_of_not_pos hzero
      exact Bool.false_ne_true (hk.refused.symm.trans h)
    have hbefore (j : Nat) (hlt : j < k) : accept (offer :: offers.take j) = true :=
      hk.accepted (j + 1) (Nat.zero_lt_succ j) (Nat.succ_lt_succ hlt)
    exact ⟨hpos, Nat.le_of_succ_le_succ hk.le, hk.refused, fun j _ hlt => hbefore j hlt⟩
  · intro hk
    constructor
    · exact Nat.zero_lt_succ k
    · exact Nat.succ_le_succ hk.le
    · exact hk.refused
    · intro j hpos hlt
      match j with
      | 1 => exact h
      | j + 2 => exact hk.accepted (j + 1) (Nat.zero_lt_succ j) (Nat.lt_of_succ_lt_succ hlt)

theorem firstRefusal_take (hk : k ≤ n) :
    FirstRefusal accept (offers.take n) k ↔ FirstRefusal accept offers k := by
  have htake (j : Nat) (hj : j ≤ k) : (offers.take n).take j = offers.take j := by
    rw [List.take_take, Nat.min_eq_left (Nat.le_trans hj hk)]
  constructor
  · intro h
    constructor
    · exact h.pos
    · exact Nat.le_trans h.le (List.length_take_le' n offers)
    · rw [← htake k (Nat.le_refl k)]
      exact h.refused
    · intro j hpos hlt
      rw [← htake j (Nat.le_of_lt hlt)]
      exact h.accepted j hpos hlt
  · intro h
    constructor
    · exact h.pos
    · rw [List.length_take]
      exact Nat.le_min.mpr ⟨hk, h.le⟩
    · rw [htake k (Nat.le_refl k)]
      exact h.refused
    · intro j hpos hlt
      rw [htake j (Nat.le_of_lt hlt)]
      exact h.accepted j hpos hlt

theorem firstRefusal_belowLimit (hpos : 0 < n) (hn : n ≤ offers.length) :
    FirstRefusal (belowLimit (some n)) offers n := by
  have hlength (j : Nat) (hj : j ≤ n) : (offers.take j).length = j := by
    rw [List.length_take, Nat.min_eq_left (Nat.le_trans hj hn)]
  constructor
  · exact hpos
  · exact hn
  · rw [belowLimit, hlength n (Nat.le_refl n)]
    exact decide_eq_false (Nat.lt_irrefl n)
  · intro j _ hlt
    rw [belowLimit, hlength j (Nat.le_of_lt hlt)]
    exact decide_eq_true hlt

end Refusal

/-- A run is another one, cut off after the first call that is refused. -/
structure Transcript.Cut {σ : Type} (accept : List Signal → Bool) (own full : Transcript σ) :
    Prop where
  refused : ∀ k, FirstRefusal accept full.offers k → own = ⟨full.asks.take k, none⟩
  accepted : (∀ k, ¬FirstRefusal accept full.offers k) → own = full

namespace Transcript.Cut

variable {σ : Type} {accept : List Signal → Bool} {own full : Transcript σ} {k : Nat}

theorem of_nil (fault : Option Fault) : Cut accept (⟨[], fault⟩ : Transcript σ) ⟨[], fault⟩ where
  refused _ hk := absurd hk firstRefusal_nil
  accepted _ := rfl

theorem of_refused {ask : Ask σ} (h : accept [ask.offer] = false) (full : Transcript σ) :
    Cut accept ⟨[ask], none⟩ (full.cons ask) where
  refused k hk := by
    obtain rfl := (firstRefusal_cons_of_refused h).mp hk
    rfl
  accepted hnone := absurd ((firstRefusal_cons_of_refused h).mpr rfl) (hnone 1)

theorem cons {ask : Ask σ} (hask : accept [ask.offer] = true)
    (h : Cut (fun later => accept (ask.offer :: later)) own full) :
    Cut accept (own.cons ask) (full.cons ask) where
  refused k hk := by
    obtain ⟨k, rfl⟩ := Nat.exists_eq_succ_of_ne_zero hk.pos.ne'
    rw [h.refused k ((firstRefusal_cons_of_accepted hask).mp hk)]
    rfl
  accepted hnone := by
    rw [h.accepted fun k hk => hnone (k + 1) ((firstRefusal_cons_of_accepted hask).mpr hk)]

theorem firstRefusal_iff (h : Cut accept own full) :
    FirstRefusal accept own.offers k ↔ FirstRefusal accept full.offers k := by
  have hcut (n : Nat) (hn : FirstRefusal accept full.offers n) :
      own.offers = full.offers.take n := by
    rw [h.refused n hn]
    exact List.map_take
  constructor
  · intro hk
    by_cases hfull : ∃ n, FirstRefusal accept full.offers n
    · obtain ⟨n, hn⟩ := hfull
      rw [hcut n hn] at hk
      exact (firstRefusal_take (Nat.le_trans hk.le (List.length_take_le n _))).mp hk
    · rwa [h.accepted (not_exists.mp hfull)] at hk
  · intro hk
    rw [hcut k hk]
    exact (firstRefusal_take (Nat.le_refl k)).mpr hk

end Transcript.Cut

section Queries

variable {σ : Type} [Network σ] {e : Engine} {t : Transform} {function : Table}
  {leaves : List Signal}

theorem offerTranscript_cut (accept : List Signal → Bool) (candidates : List Signal) (c : Copy σ) :
    Transcript.Cut accept (offerTranscript e t accept candidates c)
      (offerTranscript e t (fun _ => true) candidates c) := by
  induction candidates generalizing accept c with
  | nil => exact .of_nil none
  | cons candidate rest ih =>
    unfold offerTranscript
    cases Copy.addCone e.library c candidate.node with
    | error f => exact .of_nil (some f)
    | ok r =>
      obtain ⟨s, c'⟩ := r
      dsimp only
      rw [if_pos rfl]
      -- the rest of the run sees the callback with the accepted offer put in front
      split_ifs with haccept
      · exact .cons haccept (ih _ c')
      · exact .of_refused (Bool.eq_false_of_not_eq_true haccept) _

theorem transcript_cut (e : Engine) (function : Table) (leaves : List Signal)
    (accept : List Signal → Bool) (target : σ) :
    Transcript.Cut accept (e.transcript function leaves accept target)
      (e.transcript function leaves (fun _ => true) target) := by
  unfold transcript
  cases function.toTable4? with
  | none => exact .of_nil none
  | some f =>
    dsimp only
    cases e.index.get? (ClassTable.standard.lookup f).representative with
    | none => exact .of_nil none
    | some candidates =>
      dsimp only
      cases e.seed (ClassTable.standard.lookup f).transform leaves with
      | error f => exact .of_nil (some f)
      | ok memo => exact offerTranscript_cut accept candidates ⟨memo, target⟩

/-- A query that is first refused at offer `k` has made the first `k` calls of the run that is never
refused, and no other. Its offers are those of these calls, and it leaves the target as that run
had it at the last of them. -/
structure Stopped (e : Engine) (function : Table) (leaves : List Signal)
    (accept : List Signal → Bool) (target : σ) (k : Nat) : Prop where
  calls : (e.transcript function leaves accept target).asks.length = k
  asks : (e.transcript function leaves accept target).asks =
    (e.transcript function leaves (fun _ => true) target).asks.take k
  outcome : ∃ last, (e.transcript function leaves (fun _ => true) target).asks[k - 1]? = some last ∧
    e.query function leaves accept target =
      .ok ⟨(e.transcript function leaves (fun _ => true) target).offers.take k, last.target⟩

theorem stopped_of_firstRefusal {accept : List Signal → Bool} {target : σ} {k : Nat}
    (h : FirstRefusal accept (e.transcript function leaves (fun _ => true) target).offers k) :
    e.Stopped function leaves accept target k := by
  have hcut := (e.transcript_cut function leaves accept target).refused k h
  have hlength : k ≤ (e.transcript function leaves (fun _ => true) target).asks.length := by
    have hle := h.le
    rwa [Transcript.offers, List.length_map] at hle
  have hlast : k - 1 < (e.transcript function leaves (fun _ => true) target).asks.length :=
    Nat.lt_of_lt_of_le (Nat.sub_lt h.pos Nat.one_pos) hlength
  constructor
  · rw [hcut, List.length_take, Nat.min_eq_left hlength]
  · exact congrArg Transcript.asks hcut
  · refine ⟨_, List.getElem?_eq_getElem hlast, ?_⟩
    rw [query_eq_transcript, hcut, Transcript.outcome_take h.pos (List.getElem?_eq_getElem hlast)]

/-- The library has no candidates for functions of more than four inputs, or of a class that none of
its nodes computes. -/
def Uncovered (e : Engine) (function : Table) : Prop :=
  4 < function.inputs ∨ ∃ f, function.toTable4? = some f ∧
    e.index.get? (ClassTable.standard.representative f) = none

theorem Uncovered.transcript_eq (h : e.Uncovered function) (leaves : List Signal)
    (accept : List Signal → Bool) (target : σ) :
    e.transcript function leaves accept target = ⟨[], none⟩ := by
  unfold transcript
  rcases h with hwide | ⟨f, hf, hclass⟩
  · have hnone : function.toTable4? = none := if_neg (Nat.not_le.mpr hwide)
    rw [hnone]
  · rw [hf]
    dsimp only
    rw [ClassTable.representative] at hclass
    rw [hclass]

/-- A query returns what its calls are and how they leave the target. If an offer is refused, the
callback has been called up to there as in the run that is never refused, and not again; if none
is, the two runs are the same. There are no calls if the library has no candidates. -/
theorem cancellation_exact (e : Engine) (function : Table) (leaves : List Signal)
    (accept : List Signal → Bool) (target : σ) :
    (∀ accept' : List Signal → Bool, e.query function leaves accept' target =
        (e.transcript function leaves accept' target).outcome target) ∧
      (∀ k, FirstRefusal accept (e.transcript function leaves accept target).offers k ↔
        FirstRefusal accept (e.transcript function leaves (fun _ => true) target).offers k) ∧
      (∀ k, FirstRefusal accept (e.transcript function leaves accept target).offers k →
        e.Stopped function leaves accept target k) ∧
      ((∀ k, ¬FirstRefusal accept (e.transcript function leaves accept target).offers k) →
        e.transcript function leaves accept target =
          e.transcript function leaves (fun _ => true) target) ∧
      (e.Uncovered function → (e.transcript function leaves accept target).asks = [] ∧
        e.query function leaves accept target = .ok ⟨[], target⟩) := by
  have hcut := e.transcript_cut function leaves accept target
  refine ⟨fun accept' => query_eq_transcript accept' target, fun k => hcut.firstRefusal_iff,
    fun k hk => stopped_of_firstRefusal (hcut.firstRefusal_iff.mp hk), fun hnone => ?_,
    fun huncovered => ?_⟩
  · exact hcut.accepted fun k hk => hnone k (hcut.firstRefusal_iff.mpr hk)
  · have hcalls := huncovered.transcript_eq leaves accept target
    rw [query_eq_transcript, hcalls]
    exact ⟨rfl, rfl⟩

theorem WellFormed.mem_candidates_zero (h : e.WellFormed) {n : Nat} (hn : n < e.library.size)
    (hvalue : ∀ a, e.library.value a (.ofNode n) = false) :
    n ∈ (e.candidates .zero).map (·.node) := by
  obtain ⟨tables, -, hsize, hrows, hcandidates⟩ := h.exists_candidates
  rw [← hsize] at hn
  have htable : tables[n] = Table4.zero := by
    ext x
    rw [hrows n tables[n] (Array.getElem?_eq_getElem hn) x, Table4.row_zero]
    exact hvalue _
  have hzero : ClassTable.standard.representative .zero = .zero :=
    ClassTable.representative_of_countTrue (by decide) (by decide)
  rw [(hcandidates .zero).nodes, hzero, mem_classNodes, Array.getElem?_eq_getElem hn, htable]
  exact .inl rfl

theorem WellFormed.length_le_candidates (h : e.WellFormed) {ns : List Nat} (hnodup : ns.Nodup)
    (hzero : ∀ n ∈ ns, n < e.library.size ∧ ∀ a, e.library.value a (.ofNode n) = false) :
    ns.length ≤ (e.candidates Table4.zero).length := by
  have hmem : ns ⊆ (e.candidates .zero).map (·.node) := fun n hn =>
    h.mem_candidates_zero (hzero n hn).1 (hzero n hn).2
  calc ns.length ≤ ((e.candidates .zero).map (·.node)).length := (hnodup.subperm hmem).length_le
    _ = (e.candidates .zero).length := List.length_map _

/-- Two of the gates are constantly `false`, but neither is folded. -/
def falseGates : IndexList :=
  ⟨4, [(2, 4), (3, 10), (5, 10)], [12], by decide, by decide, by decide⟩

theorem nodes_falseGates : (falseGates.decodeInto Xag.empty).2.nodes =
    #[.constant, .input 0, .input 1, .input 2, .input 3, .and ⟨1, false⟩ ⟨2, false⟩,
      .and ⟨1, true⟩ ⟨5, false⟩, .and ⟨2, true⟩ ⟨5, false⟩] := by
  cbv

theorem value_falseGates {library : Xag} (h : library.WellFormed)
    (hnodes : library.nodes = (falseGates.decodeInto Xag.empty).2.nodes) (a : Nat → Bool) :
    library.value a ⟨6, false⟩ = false ∧ library.value a ⟨7, false⟩ = false := by
  rw [nodes_falseGates] at hnodes
  have hshared : library.value a ⟨5, false⟩ =
      (library.value a ⟨1, false⟩ && library.value a ⟨2, false⟩) :=
    Xag.value_and a h.ordered (by rw [hnodes]; rfl)
  have hfirst : library.value a ⟨6, false⟩ =
      (library.value a ⟨1, true⟩ && library.value a ⟨5, false⟩) :=
    Xag.value_and a h.ordered (by rw [hnodes]; rfl)
  have hsecond : library.value a ⟨7, false⟩ =
      (library.value a ⟨2, true⟩ && library.value a ⟨5, false⟩) :=
    Xag.value_and a h.ordered (by rw [hnodes]; rfl)
  have hnot (n : Nat) : library.value a ⟨n, true⟩ = !library.value a ⟨n, false⟩ :=
    Xag.value_complement a ⟨n, false⟩
  rw [hfirst, hsecond, hshared, hnot, hnot]
  cases library.value a ⟨1, false⟩ <;> cases library.value a ⟨2, false⟩ <;> simp

theorem exists_falseGates : ∃ e, ofWords false falseGates.toWords = .ok e ∧
    3 ≤ (e.candidates .zero).length := by
  have hwords := IndexList.ofWords_toWords falseGates
  obtain ⟨e, he⟩ : ∃ e, ofWords false falseGates.toWords = .ok e := ofWords_ok false hwords rfl rfl
  have hengine := wellFormed_of_ofWords he
  obtain ⟨l, signals, hl, -, hdecode, -⟩ := of_ofWords he
  obtain rfl := Except.ok.inj (hl.symm.trans hwords)
  have hnodes : e.library.nodes = (falseGates.decodeInto Xag.empty).2.nodes := by rw [hdecode]
  have hsize : e.library.size = 8 := by rw [Xag.size, hnodes, nodes_falseGates]; rfl
  have hnodup : [0, 6, 7].Nodup := by decide
  refine ⟨e, he, hengine.length_le_candidates hnodup fun n hn => ?_⟩
  rw [hsize]
  have hcases : n = 0 ∨ n = 6 ∨ n = 7 := by simpa using hn
  rcases hcases with rfl | rfl | rfl
  · exact ⟨by decide, fun a => Xag.value_of_zero a hengine.library.zero rfl⟩
  · exact ⟨by decide, fun a => (value_falseGates hengine.library hnodes a).1⟩
  · exact ⟨by decide, fun a => (value_falseGates hengine.library hnodes a).2⟩

/-- The second offer for the constant function is refused while a third candidate is left. -/
theorem cancellation_exact_false_gates :
    ∃ e, ofWords false falseGates.toWords = .ok e ∧ 3 ≤ (e.candidates .zero).length ∧
      FirstRefusal (belowLimit (some 2)) (e.transcript (.ofTable4 .zero) [⟨1, false⟩, ⟨2, false⟩]
        (belowLimit (some 2)) Xag.empty.addInput.2.addInput.2).offers 2 ∧
      e.Stopped (.ofTable4 .zero) [⟨1, false⟩, ⟨2, false⟩] (belowLimit (some 2))
        Xag.empty.addInput.2.addInput.2 2 := by
  obtain ⟨e, he, hcandidates⟩ := exists_falseGates
  have hengine := wellFormed_of_ofWords he
  have htarget : LawfulNetwork.Reachable Xag.empty.addInput.2.addInput.2 :=
    Xag.Reachable.addInput (.addInput .empty)
  have hleaves : ∀ s ∈ ([⟨1, false⟩, ⟨2, false⟩] : List Signal),
      LawfulNetwork.Has Xag.empty.addInput.2.addInput.2 s := by
    simp [LawfulNetwork.Has, Xag.Has, Xag.empty, Xag.addInput]
  obtain ⟨outcome, hquery⟩ :=
    hengine.exists_outcome htarget hleaves (.ofTable4 .zero) fun _ => true
  have hlength := (hengine.query_enumerated (Table.toTable4?_ofTable4 .zero) hquery).length
  obtain ⟨hreturns, hsame, hstopped, -⟩ := e.cancellation_exact (.ofTable4 .zero)
    [⟨1, false⟩, ⟨2, false⟩] (belowLimit (some 2)) Xag.empty.addInput.2.addInput.2
  rw [hreturns] at hquery
  rw [Transcript.offers_of_outcome hquery] at hlength
  have hrefused : FirstRefusal (belowLimit (some 2)) (e.transcript (.ofTable4 .zero)
      [⟨1, false⟩, ⟨2, false⟩] (fun _ => true) Xag.empty.addInput.2.addInput.2).offers 2 := by
    apply firstRefusal_belowLimit
    · decide
    · omega
  have hown := (hsame 2).mpr hrefused
  exact ⟨e, he, hcandidates, hown, hstopped 2 hown⟩

end Queries

end Engine
end LogicResynthesis

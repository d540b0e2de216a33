import LogicResynthesis.Proofs.Resynthesis.Cones

/-!
# Queries that are repeated

The calls of a query, made in order, lead from its target to the target at the
end. They are all that the query depends on: on another target that answers the
same calls in the same way it makes just these calls and offers the same signals.
On a lawful target all operands and answers are signals of the target.
-/

namespace LogicResynthesis

/-- The calls, made of `g` in order and answered as recorded, lead to the last target. -/
inductive Performed {σ : Type} [Network σ] (g : σ) : List Call → σ → Prop
  | nil : Performed g [] g
  | concat {calls : List Call} {call : Call} {h h' : σ} (before : Performed g calls h)
      (request : call.kind.request? h call.left call.right = .ok (call.answer, h')) :
      Performed g (calls ++ [call]) h'

theorem Engine.Requests.performed {σ : Type} [Network σ] {e : Engine} {function : Table}
    {leaves : List Signal} {accept : List Signal → Bool} {target : σ} {outcome : Outcome σ}
    {calls : List Call} (h : e.Requests function leaves accept target outcome calls) :
    Performed target calls outcome.target := by
  have hkeeps : ∀ (kind : GateKind) (r : Recorded σ) (x y s : Signal) (r' : Recorded σ),
      Performed target r.calls r.target → kind.request? r x y = .ok (s, r') →
      Performed target r'.calls r'.target := by
    intro kind r x y s r' hr hrequest
    obtain ⟨g, hg, rfl⟩ := Recorded.exists_of_request? hrequest
    exact hr.concat hg
  exact query_keeps hkeeps (h.recorded []) (.nil : Performed target [] target)

/-- The call is answered as before by every target that satisfies `H`, and `H` is kept. -/
def Call.Repeats {τ : Type} [Network τ] (H : τ → Prop) (call : Call) : Prop :=
  ∀ h, H h → ∃ h', call.kind.request? h call.left call.right = .ok (call.answer, h') ∧ H h'

namespace Copy

variable {σ τ : Type} [Network σ] [Network τ] {library : Xag} {H : τ → Prop}

theorem addNode_eq {c : Copy σ} {n : Nat} {kind : GateKind} {x y s t r : Signal} {target : σ}
    (hnode : library.nodes[n]? = some (kind.node x y)) (hx : c.memo.resolve? x = .ok s)
    (hy : c.memo.resolve? y = .ok t) (hr : kind.request? c.target s t = .ok (r, target)) :
    addNode library c n = .ok ⟨c.memo.insert n r, target⟩ := by
  unfold addNode
  cases kind with
  | and =>
    have hr : Network.addAnd? c.target s t = .ok (r, target) := hr
    simp only [GateKind.node] at hnode
    simp only [bind, Except.bind, node?_eq hnode, hx, hy, hr]
    rfl
  | xor =>
    have hr : Network.addXor? c.target s t = .ok (r, target) := hr
    simp only [GateKind.node] at hnode
    simp only [bind, Except.bind, node?_eq hnode, hx, hy, hr]
    rfl

/-- The second copy has the memo of the first, which is on record, and a target that satisfies
`H`. -/
abbrev Replays (H : τ → Prop) (c : Copy (Recorded σ)) (d : Copy τ) : Prop :=
  Related (fun (_ : Recorded σ) h => H h) c d

variable {c c' : Copy (Recorded σ)} {d : Copy τ}

theorem calls_subset_of_addNode {n : Nat} (hadd : addNode library c n = .ok c') :
    c.target.calls ⊆ c'.target.calls := by
  obtain ⟨kind, x, y, s, t, r, target, -, -, -, hrequest, rfl⟩ := addNode_eq_ok hadd
  obtain ⟨g, -, rfl⟩ := Recorded.exists_of_request? hrequest
  exact List.subset_append_left _ _

theorem addNode_replay {n : Nat} (hadd : addNode library c n = .ok c')
    (hcalls : ∀ call ∈ c'.target.calls, call.Repeats H) (h : Replays H c d) :
    ∃ d', addNode library d n = .ok d' ∧ Replays H c' d' := by
  obtain ⟨kind, x, y, s, t, r, target, hnode, hx, hy, hrequest, rfl⟩ := addNode_eq_ok hadd
  obtain ⟨g, -, rfl⟩ := Recorded.exists_of_request? hrequest
  obtain ⟨hmemo, hd⟩ := h
  have hlast : (⟨kind, s, t, r⟩ : Call) ∈ c.target.calls ++ [⟨kind, s, t, r⟩] := by simp
  obtain ⟨target', hrequest', hd'⟩ := hcalls _ hlast d.target hd
  rw [hmemo] at hx hy
  refine ⟨_, addNode_eq hnode hx hy hrequest', ?_, hd'⟩
  rw [hmemo]

theorem foldlM_addNode_replay {order : List Nat} (hrun : order.foldlM (addNode library) c = .ok c')
    (hcalls : ∀ call ∈ c'.target.calls, call.Repeats H) (h : Replays H c d) :
    ∃ d', order.foldlM (addNode library) d = .ok d' ∧ Replays H c' d' := by
  induction order using List.reverseRecOn generalizing c' with
  | nil =>
    obtain rfl := Except.ok.inj hrun
    exact ⟨d, rfl, h⟩
  | append_singleton order n ih =>
    rw [List.foldlM_append] at hrun
    obtain ⟨c₁, hbefore, hlast⟩ := bind_eq_ok.mp hrun
    rw [List.foldlM_cons] at hlast
    obtain ⟨c₂, hadd, hend⟩ := bind_eq_ok.mp hlast
    obtain rfl := Except.ok.inj hend
    obtain ⟨d₁, hbefore', h₁⟩ :=
      ih hbefore fun call hcall => hcalls call (calls_subset_of_addNode hadd hcall)
    obtain ⟨d₂, hadd', h₂⟩ := addNode_replay hadd hcalls h₁
    refine ⟨d₂, ?_, h₂⟩
    rw [List.foldlM_append, hbefore']
    exact bind_eq_ok.mpr ⟨d₁, rfl, bind_eq_ok.mpr ⟨d₂, hadd', rfl⟩⟩

theorem addCone_replay {root : Nat} {s : Signal} (hadd : addCone library c root = .ok (s, c'))
    (hcalls : ∀ call ∈ c'.target.calls, call.Repeats H) (h : Replays H c d) :
    ∃ d', addCone library d root = .ok (s, d') ∧ Replays H c' d' := by
  obtain ⟨order, horder, hrun, hs⟩ := addCone_eq_ok.mp hadd
  obtain ⟨d₁, hrun', h₁⟩ := foldlM_addNode_replay hrun hcalls h
  rw [h.1] at horder
  rw [h₁.1] at hs
  exact ⟨d₁, addCone_eq_ok.mpr ⟨order, horder, hrun', hs⟩, h₁⟩

end Copy

namespace Engine

variable {σ τ : Type} [Network σ] [Network τ] {e : Engine} {t : Npn.Transform}
  {accept : List Signal → Bool} {H : τ → Prop}

theorem calls_subset_of_offerAll {candidates offers : List Signal} {c : Copy (Recorded σ)}
    {outcome : Outcome (Recorded σ)}
    (hrun : offerAll e t accept candidates offers c = .ok outcome) :
    c.target.calls ⊆ outcome.target.calls := by
  obtain ⟨memo, target, earlier⟩ := c
  have hstart : Copy.Related (fun (r r' : Recorded σ) => r' = ⟨r.target, earlier ++ r.calls⟩)
      ⟨memo, ⟨target, []⟩⟩ ⟨memo, ⟨target, earlier⟩⟩ := ⟨rfl, by simp⟩
  have halike : Alike _ (offerAll e t accept candidates offers _) _ :=
    offerAll_alike e (Recorded.simulates_append earlier) t accept candidates hstart
  rcases halike.error_or_ok with ⟨f, -, hrun'⟩ | ⟨later, _, -, hrun', -, hlast⟩
  · cases hrun.symm.trans hrun'
  · obtain rfl := Except.ok.inj (hrun.symm.trans hrun')
    rw [hlast]
    exact List.subset_append_left _ _

theorem offerAll_replay {candidates offers : List Signal} {c : Copy (Recorded σ)} {d : Copy τ}
    {outcome : Outcome (Recorded σ)}
    (hrun : offerAll e t accept candidates offers c = .ok outcome)
    (hcalls : ∀ call ∈ outcome.target.calls, call.Repeats H) (h : Copy.Replays H c d) :
    ∃ h', offerAll e t accept candidates offers d = .ok ⟨outcome.offers, h'⟩ ∧ H h' := by
  induction candidates generalizing offers c d with
  | nil =>
    obtain rfl := Except.ok.inj hrun
    exact ⟨_, rfl, h.2⟩
  | cons candidate rest ih =>
    unfold offerAll at hrun ⊢
    cases hadd : Copy.addCone e.library c candidate.node with
    | error f =>
      rw [hadd] at hrun
      cases hrun
    | ok r =>
      obtain ⟨s, c'⟩ := r
      rw [hadd] at hrun
      dsimp only at hrun
      split_ifs at hrun with haccept
      · have hcalls' : ∀ call ∈ c'.target.calls, call.Repeats H := fun call hcall =>
          hcalls call (calls_subset_of_offerAll hrun hcall)
        obtain ⟨d', hadd', h'⟩ := Copy.addCone_replay hadd hcalls' h
        rw [hadd']
        dsimp only
        rw [if_pos haccept]
        exact ih hrun h'
      · obtain rfl := Except.ok.inj hrun
        obtain ⟨d', hadd', h'⟩ := Copy.addCone_replay hadd hcalls h
        rw [hadd']
        dsimp only
        rw [if_neg haccept]
        exact ⟨_, rfl, h'.2⟩

theorem query_replay {function : Table} {leaves : List Signal} {target : σ} {outcome : Outcome σ}
    {calls : List Call} (hrequests : e.Requests function leaves accept target outcome calls)
    (hcalls : ∀ call ∈ calls, call.Repeats H) {h : τ} (hh : H h) :
    ∃ h', e.query function leaves accept h = .ok ⟨outcome.offers, h'⟩ ∧ H h' := by
  have hrun := hrequests.recorded []
  unfold query at hrun ⊢
  cases hwide : function.toTable4? with
  | none =>
    rw [hwide] at hrun
    obtain ⟨hoffers, -⟩ := Outcome.mk.inj (Except.ok.inj hrun)
    exact ⟨h, by rw [← hoffers], hh⟩
  | some f =>
    rw [hwide] at hrun
    dsimp only at hrun ⊢
    cases hget : e.index.get? (Npn.ClassTable.standard.lookup f).representative with
    | none =>
      rw [hget] at hrun
      obtain ⟨hoffers, -⟩ := Outcome.mk.inj (Except.ok.inj hrun)
      exact ⟨h, by rw [← hoffers], hh⟩
    | some candidates =>
      rw [hget] at hrun
      dsimp only at hrun ⊢
      cases hseed : e.seed (Npn.ClassTable.standard.lookup f).transform leaves with
      | error f =>
        rw [hseed] at hrun
        cases hrun
      | ok memo =>
        rw [hseed] at hrun
        exact offerAll_replay (d := ⟨memo, h⟩) hrun hcalls ⟨rfl, hh⟩

end Engine

section Lawful

open LawfulNetwork (Reachable Has GrowsTo)

variable {σ : Type} [Network σ] [LawfulNetwork σ] {g g' : σ} {leaves : List Signal}
  {calls : List Call} {call : Call}

theorem GateKind.request?_ok (kind : GateKind) {x y : Signal} (hg : Reachable g) (hx : Has g x)
    (hy : Has g y) :
    ∃ s g', kind.request? g x y = .ok (s, g') ∧ Reachable g' ∧ GrowsTo g g' ∧ Has g' s := by
  cases kind with
  | and =>
    obtain ⟨s, g', hadd, hg', hgrows, hs, -⟩ := LawfulNetwork.addAnd?_ok hg hx hy
    exact ⟨s, g', hadd, hg', hgrows, hs⟩
  | xor =>
    obtain ⟨s, g', hadd, hg', hgrows, hs, -⟩ := LawfulNetwork.addXor?_ok hg hx hy
    exact ⟨s, g', hadd, hg', hgrows, hs⟩

theorem ComesFrom.has {s : Signal} (h : ComesFrom leaves calls s) (hg : Reachable g)
    (hleaves : ∀ s ∈ leaves, Has g s) (hcalls : ∀ call ∈ calls, Has g call.answer) : Has g s := by
  obtain ⟨t, v, rfl, rfl | ht | ⟨call, hcall, rfl⟩⟩ := h
  · exact LawfulNetwork.has_complementIf (LawfulNetwork.has_constant hg false) v
  · exact LawfulNetwork.has_complementIf (hleaves t ht) v
  · exact LawfulNetwork.has_complementIf (hcalls call hcall) v

theorem sourced_concat : Sourced leaves (calls ++ [call]) ↔
    Sourced leaves calls ∧ ComesFrom leaves calls call.left ∧ ComesFrom leaves calls call.right := by
  constructor
  · intro h
    generalize hall : calls ++ [call] = all at h
    cases h with
    | nil => simp at hall
    | concat h hleft hright =>
      obtain ⟨rfl, hlast⟩ := List.append_inj' hall rfl
      obtain rfl := List.singleton_inj.mp hlast
      exact ⟨h, hleft, hright⟩
  · rintro ⟨h, hleft, hright⟩
    exact h.concat hleft hright

/-- The call is on signals of the target, where `S` holds of it. -/
structure Call.Settled (S : σ → Call → Prop) (g : σ) (call : Call) : Prop where
  left : Has g call.left
  right : Has g call.right
  answer : Has g call.answer
  settled : S g call

/-- If `S` holds of a call once it has been answered and is kept when the target grows, it holds in
the end of all calls that are made. -/
theorem Performed.settled {S : σ → Call → Prop}
    (hnew : ∀ (g g' : σ) (call : Call), Reachable g → Reachable g' → Has g call.left →
      Has g call.right → call.kind.request? g call.left call.right = .ok (call.answer, g') →
      S g' call)
    (hkeep : ∀ (g g' : σ) (call : Call), Reachable g → Reachable g' → GrowsTo g g' →
      Has g call.left → Has g call.right → S g call → S g' call)
    (h : Performed g calls g') (hsourced : Sourced leaves calls) (hg : Reachable g)
    (hleaves : ∀ s ∈ leaves, Has g s) :
    Reachable g' ∧ GrowsTo g g' ∧ ∀ call ∈ calls, call.Settled S g' := by
  induction h with
  | nil => exact ⟨hg, LawfulNetwork.grows_refl g, by simp⟩
  | @concat calls call h₀ h₁ _ hrequest ih =>
    obtain ⟨hsourced, hleft, hright⟩ := sourced_concat.mp hsourced
    obtain ⟨hreachable, hgrows, hcalls⟩ := ih hsourced
    have hanswers : ∀ call ∈ calls, Has h₀ call.answer := fun call hcall => (hcalls call hcall).answer
    have hleaves₀ : ∀ s ∈ leaves, Has h₀ s :=
      fun s hs => LawfulNetwork.has_of_grows hgrows (hleaves s hs)
    have hasl := hleft.has hreachable hleaves₀ hanswers
    have hasr := hright.has hreachable hleaves₀ hanswers
    obtain ⟨s, h₂, hok, hreachable₁, hgrows₁, hs⟩ := call.kind.request?_ok hreachable hasl hasr
    obtain ⟨rfl, rfl⟩ := Prod.mk.inj (Except.ok.inj (hrequest.symm.trans hok))
    refine ⟨hreachable₁, LawfulNetwork.grows_trans hgrows hgrows₁, fun call' hcall' => ?_⟩
    rcases List.mem_append.mp hcall' with hcall' | hcall'
    · obtain ⟨hl, hr, ha, hsettled⟩ := hcalls call' hcall'
      exact ⟨LawfulNetwork.has_of_grows hgrows₁ hl, LawfulNetwork.has_of_grows hgrows₁ hr,
        LawfulNetwork.has_of_grows hgrows₁ ha,
        hkeep _ _ _ hreachable hreachable₁ hgrows₁ hl hr hsettled⟩
    · obtain rfl := List.mem_singleton.mp hcall'
      exact ⟨LawfulNetwork.has_of_grows hgrows₁ hasl, LawfulNetwork.has_of_grows hgrows₁ hasr, hs,
        hnew _ _ _ hreachable hreachable₁ hasl hasr hrequest⟩

end Lawful

end LogicResynthesis

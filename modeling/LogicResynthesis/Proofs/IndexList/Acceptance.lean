import LogicResynthesis.Proofs.Fault
import LogicResynthesis.Proofs.IndexList.Meaning

/-!
# Which words decode

Words decode inside every graph if they are as many as their header implies and
every literal names a node that is defined where it stands. Otherwise the first
mistake is reported: a wrong length, or the first literal in the order of the
words that is undefined. What has been built so far makes no difference.
-/

namespace LogicResynthesis

namespace Header

def inputs (h : UInt32) : Nat := h.toNat % 256

def outputs (h : UInt32) : Nat := h.toNat / 256 % 256

def gates (h : UInt32) : Nat := h.toNat / 65536

/-- How many words the header implies, itself included. -/
def words (h : UInt32) : Nat := 1 + 2 * gates h + outputs h

/-- How many nodes are defined where word `i` stands: the constant, the inputs and the gates whose
literals stand before it. -/
def defined (h : UInt32) (i : Nat) : Nat := 1 + inputs h + min ((i - 1) / 2) (gates h)

theorem defined_gate {h : UInt32} {j : Nat} (hj : j < gates h) :
    defined h (1 + 2 * j) = 1 + inputs h + j ∧ defined h (2 + 2 * j) = 1 + inputs h + j := by
  unfold defined
  omega

theorem defined_output (h : UInt32) (k : Nat) :
    defined h (1 + 2 * gates h + k) = 1 + inputs h + gates h := by
  unfold defined
  omega

end Header

namespace IndexList

section Check

/-- The first literal that names an undefined node, among literals that stand from `position` on,
`defined i` nodes being defined at position `i`. -/
def firstUndefined? (defined : Nat → Nat) (position : Nat) (ws : List UInt32) :
    Option (UInt32 × Nat) :=
  (ws.zipIdx position).find? fun p => defined p.2 ≤ Literal.node p.1

def report (defined : Nat → Nat) : Option (UInt32 × Nat) → Except DecodeError Unit
  | none => .ok ()
  | some (w, i) => .error (.undefinedLiteral i w (defined i))

/-- Reports the first undefined literal. -/
def check (defined : Nat → Nat) (position : Nat) (ws : List UInt32) : Except DecodeError Unit :=
  report defined (firstUndefined? defined position ws)

variable {defined : Nat → Nat} {position : Nat} {w : UInt32} {ws : List UInt32}

theorem check_cons_of_lt (hw : Literal.node w < defined position) :
    check defined position (w :: ws) = check defined (position + 1) ws := by
  have hnot : ¬defined position ≤ Literal.node w := Nat.not_le.mpr hw
  rw [check, firstUndefined?, List.zipIdx_cons, List.find?_cons_of_neg (by simpa using hnot)]
  rfl

theorem check_cons_of_le (hw : defined position ≤ Literal.node w) :
    check defined position (w :: ws) =
      .error (.undefinedLiteral position w (defined position)) := by
  rw [check, firstUndefined?, List.zipIdx_cons, List.find?_cons_of_pos (by simpa using hw)]
  rfl

theorem check_append (ws later : List UInt32) :
    check defined position (ws ++ later) =
      check defined position ws >>= fun _ => check defined (position + ws.length) later := by
  unfold check firstUndefined?
  rw [List.zipIdx_append, List.find?_append]
  cases (ws.zipIdx position).find? fun p => defined p.2 ≤ Literal.node p.1 <;> rfl

theorem check_eq_ok_iff :
    check defined position ws = .ok () ↔
      ∀ (i : Nat) (w : UInt32), ws[i]? = some w → Literal.node w < defined (position + i) := by
  have hnone : check defined position ws = .ok () ↔ firstUndefined? defined position ws = none := by
    unfold check
    cases firstUndefined? defined position ws <;> simp [report]
  rw [hnone, firstUndefined?, List.find?_eq_none]
  constructor
  · intro hall i w hw
    have hmem : (w, position + i) ∈ ws.zipIdx position :=
      List.mem_of_getElem? (i := i) (by simp [List.getElem?_zipIdx, hw])
    simpa using hall _ hmem
  · rintro hall ⟨w, n⟩ hmem
    obtain ⟨hle, hw⟩ := List.mk_mem_zipIdx_iff_le_and_getElem?_sub.mp hmem
    have hdefined := hall _ _ hw
    rw [Nat.add_sub_cancel' hle] at hdefined
    simpa using hdefined

/-- Word `i` of those from `position` on is a literal of an undefined node, and no word before it
is such. -/
structure FirstUndefined (defined : Nat → Nat) (position : Nat) (ws : List UInt32) (i : Nat)
    (w : UInt32) : Prop where
  stands : ws[i]? = some w
  undefined : defined (position + i) ≤ Literal.node w
  first : ∀ (j : Nat) (v : UInt32), j < i → ws[j]? = some v →
    Literal.node v < defined (position + j)

theorem firstUndefined?_eq_some_iff {n : Nat} :
    firstUndefined? defined position ws = some (w, n) ↔
      ∃ i, n = position + i ∧ FirstUndefined defined position ws i w := by
  rw [firstUndefined?, List.find?_eq_some_iff_getElem, decide_eq_true_eq]
  constructor
  · rintro ⟨hundefined, i, hi, hstands, hfirst⟩
    rw [List.getElem_zipIdx, Prod.mk.injEq] at hstands
    obtain ⟨rfl, rfl⟩ := hstands
    refine ⟨i, rfl, List.getElem?_eq_getElem _, hundefined, fun j v hj hv => ?_⟩
    obtain ⟨_, rfl⟩ := List.getElem?_eq_some_iff.mp hv
    simpa using hfirst j hj
  · rintro ⟨i, rfl, hstands, hundefined, hfirst⟩
    obtain ⟨hi, rfl⟩ := List.getElem?_eq_some_iff.mp hstands
    have hbefore (j : Nat) (hj : j < i) :=
      hfirst j _ hj (List.getElem?_eq_getElem (Nat.lt_trans hj hi))
    exact ⟨hundefined, i, by simpa using hi, by simp, fun j hj => by simpa using hbefore j hj⟩

theorem check_eq_error_iff {e : DecodeError} :
    check defined position ws = .error e ↔
      ∃ i w, FirstUndefined defined position ws i w ∧
        e = .undefinedLiteral (position + i) w (defined (position + i)) := by
  constructor
  · intro herror
    unfold check at herror
    cases hfirst : firstUndefined? defined position ws with
    | none => simp [hfirst, report] at herror
    | some p =>
      obtain ⟨w, n⟩ := p
      obtain ⟨i, rfl, h⟩ := firstUndefined?_eq_some_iff.mp hfirst
      simp only [hfirst, report, Except.error.injEq] at herror
      exact ⟨i, w, h, herror.symm⟩
  · rintro ⟨i, w, h, rfl⟩
    rw [check, firstUndefined?_eq_some_iff.mpr ⟨i, rfl, h⟩, report]

end Check

section Decoding

variable {defined : Nat → Nat} {position : Nat} {signals : Array Signal}

theorem resolve_eq_error {w : UInt32} (hw : signals.size ≤ Literal.node w) :
    resolve signals position w = .error (.undefinedLiteral position w signals.size) :=
  (resolve_eq_error_iff signals position w _).mpr ⟨hw, rfl⟩

theorem resolveAll_check {ws : List UInt32}
    (hdefined : ∀ i, i < ws.length → defined (position + i) = signals.size) :
    (resolveAll signals position ws).map (fun _ => ()) = check defined position ws := by
  induction ws generalizing position with
  | nil => rfl
  | cons w rest ih =>
    have hhere : defined position = signals.size := hdefined 0 (Nat.zero_lt_succ _)
    have hrest : ∀ i, i < rest.length → defined (position + 1 + i) = signals.size := by
      intro i hi
      rw [Nat.add_assoc, Nat.add_comm 1 i]
      exact hdefined (i + 1) (Nat.succ_lt_succ hi)
    rw [resolveAll]
    by_cases hw : Literal.node w < signals.size
    · rw [check_cons_of_lt (hhere ▸ hw), ← ih hrest, resolve_eq hw]
      cases resolveAll signals (position + 1) rest <;> rfl
    · have hle := Nat.not_lt.mp hw
      rw [check_cons_of_le (hhere ▸ hle), hhere, resolve_eq_error hle]
      rfl

theorem buildGates_check {gates : List (UInt32 × UInt32)}
    (hdefined : ∀ i, i < 2 * gates.length → defined (position + i) = signals.size + i / 2)
    (g : Xag) :
    (buildGates position gates signals g).1.map Array.size =
      (check defined position (unpairs gates)).map fun _ => signals.size + gates.length := by
  induction gates generalizing position signals g with
  | nil => rfl
  | cons p rest ih =>
    rw [List.length_cons] at hdefined
    have hleft : defined position = signals.size := hdefined 0 (by omega)
    have hright : defined (position + 1) = signals.size := hdefined 1 (by omega)
    have hunpairs : unpairs (p :: rest) = p.1 :: p.2 :: unpairs rest := rfl
    rw [buildGates, hunpairs]
    by_cases hx : Literal.node p.1 < signals.size
    · rw [check_cons_of_lt (hleft ▸ hx), resolve_eq hx]
      by_cases hy : Literal.node p.2 < signals.size
      · rw [check_cons_of_lt (hright ▸ hy), resolve_eq hy]
        -- two words further on there is one node more, whatever its signal is
        have hrest (s : Signal) (i : Nat) (hi : i < 2 * rest.length) :
            defined (position + 2 + i) = (signals.push s).size + i / 2 := by
          have hlater := hdefined (2 + i) (by omega)
          rw [Nat.add_assoc, hlater, Array.size_push]
          omega
        dsimp only
        rw [ih (hrest _), Array.size_push, List.length_cons]
        have hcount : signals.size + 1 + rest.length = signals.size + (rest.length + 1) := by
          omega
        rw [hcount]
      · have hle := Nat.not_lt.mp hy
        rw [check_cons_of_le (hright ▸ hle), hright, resolve_eq_error hle]
        rfl
    · have hle := Nat.not_lt.mp hx
      rw [check_cons_of_le (hleft ▸ hle), hleft, resolve_eq_error hle]
      rfl

/-- How many nodes of the list are defined where its word `i` stands. -/
def definedAt (l : IndexList) (i : Nat) : Nat := 1 + l.inputs + min ((i - 1) / 2) l.gates.length

theorem decodeInto_check (l : IndexList) (g : Xag) :
    (l.decodeInto g).1.map (fun _ => ()) = check l.definedAt 1 (unpairs l.gates ++ l.outputs) := by
  let start := addInputs l.inputs #[.constant false] g
  have hstart : start.1.size = 1 + l.inputs := size_addInputs ..
  have hgates : (buildGates 1 l.gates start.1 start.2).1.map Array.size =
      (check l.definedAt 1 (unpairs l.gates)).map fun _ => start.1.size + l.gates.length := by
    apply buildGates_check
    intro i hi
    rw [hstart, definedAt]
    omega
  have houtputs (signals : Array Signal) (hsize : signals.size = 1 + l.inputs + l.gates.length) :
      (resolveAll signals (1 + 2 * l.gates.length) l.outputs).map (fun _ => ()) =
        check l.definedAt (1 + 2 * l.gates.length) l.outputs := by
    apply resolveAll_check
    intro i _
    rw [hsize, definedAt]
    omega
  rw [check_append, length_unpairs, decodeInto]
  cases hbuilt : buildGates 1 l.gates start.1 start.2 with
  | mk result g' =>
    rw [hbuilt] at hgates
    cases hcheck : check l.definedAt 1 (unpairs l.gates) with
    | error e =>
      rw [hcheck] at hgates
      obtain rfl : result = .error e := map_eq_error.mp hgates
      rfl
    | ok _ =>
      rw [hcheck] at hgates
      obtain ⟨signals, rfl, hsize⟩ := map_eq_ok.mp hgates
      rw [hstart] at hsize
      dsimp only [bind, Except.bind]
      rw [← houtputs signals hsize]
      cases resolveAll signals (1 + 2 * l.gates.length) l.outputs <;> rfl

end Decoding

section Words

/-- The words are as many as the first of them implies. -/
structure Shaped (words : List UInt32) (h : UInt32) : Prop where
  head : words.head? = some h
  length : words.length = Header.words h

/-- What is wrong with the number of the words. -/
inductive Misshapen (words : List UInt32) : DecodeError → Prop
  | empty (none : words = []) : Misshapen words .empty
  | truncated {h : UInt32} (head : words.head? = some h) (short : words.length < Header.words h) :
      Misshapen words (.truncated (Header.words h) words.length)
  | trailingData {h : UInt32} (head : words.head? = some h)
      (long : Header.words h < words.length) :
      Misshapen words (.trailingData (Header.words h) words.length)

/-- The words are as many as implied, gate literals name earlier nodes, and output literals name
nodes. -/
structure Accepted (words : List UInt32) (h : UInt32) : Prop extends Shaped words h where
  gates : ∀ (j : Nat) (w : UInt32), j < Header.gates h →
    words[1 + 2 * j]? = some w ∨ words[2 + 2 * j]? = some w →
    Literal.node w < 1 + Header.inputs h + j
  outputs : ∀ (k : Nat) (w : UInt32), k < Header.outputs h →
    words[1 + 2 * Header.gates h + k]? = some w →
    Literal.node w < 1 + Header.inputs h + Header.gates h

/-- The words are as many as implied, and word `i` is the first literal of an undefined node. -/
inductive Undefined (words : List UInt32) (h : UInt32) : DecodeError → Prop
  | literal (shaped : Shaped words h) {i : Nat} {w : UInt32} (position : 1 ≤ i)
      (stands : words[i]? = some w) (undefined : Header.defined h i ≤ Literal.node w)
      (first : ∀ (j : Nat) (v : UInt32), 1 ≤ j → j < i → words[j]? = some v →
        Literal.node v < Header.defined h j) :
      Undefined words h (.undefinedLiteral i w (Header.defined h i))

/-- A wrong number of words comes before any undefined literal. -/
inductive Rejected (words : List UInt32) : DecodeError → Prop
  | misshapen {e : DecodeError} (h : Misshapen words e) : Rejected words e
  | undefined {h : UInt32} {e : DecodeError} (h : Undefined words h e) : Rejected words e

variable {h : UInt32} {words : List UInt32}

theorem misshapen_or_shaped (words : List UInt32) :
    (∃ e, Misshapen words e) ∨ ∃ h, Shaped words h := by
  cases words with
  | nil => exact .inl ⟨_, .empty rfl⟩
  | cons h body =>
    rcases Nat.lt_trichotomy (h :: body).length (Header.words h) with hshort | hlength | hlong
    · exact .inl ⟨_, .truncated rfl hshort⟩
    · exact .inr ⟨h, rfl, hlength⟩
    · exact .inl ⟨_, .trailingData rfl hlong⟩

theorem Misshapen.ofWords_eq {e : DecodeError} (he : Misshapen words e) :
    ofWords words = .error e := by
  cases he with
  | empty hnone =>
    subst hnone
    rfl
  | truncated hhead hshort =>
    obtain ⟨body, rfl⟩ := List.head?_eq_some_iff.mp hhead
    exact dif_pos hshort
  | trailingData hhead hlong =>
    obtain ⟨body, rfl⟩ := List.head?_eq_some_iff.mp hhead
    exact (dif_neg (Nat.lt_asymm hlong)).trans (dif_pos hlong)

theorem Shaped.ofWords_eq (hs : Shaped words h) :
    ∃ l, ofWords words = .ok l ∧ l.inputs = Header.inputs h ∧ l.gates.length = Header.gates h := by
  obtain ⟨hhead, hlength⟩ := hs
  obtain ⟨body, rfl⟩ := List.head?_eq_some_iff.mp hhead
  have hshort : ¬body.length + 1 < Header.words h := Nat.not_lt.mpr (Nat.le_of_eq hlength.symm)
  have hlong : ¬Header.words h < body.length + 1 := Nat.not_lt.mpr (Nat.le_of_eq hlength)
  have hgates : (body.take (2 * (h.toNat / 65536))).length = 2 * (h.toNat / 65536) := by
    have hcount : body.length + 1 = 1 + 2 * (h.toNat / 65536) + h.toNat / 256 % 256 := hlength
    rw [List.length_take]
    omega
  exact ⟨_, (dif_neg hshort).trans (dif_neg hlong), rfl, (unpairs_pairs hgates).2⟩

theorem accepted_iff : Accepted words h ↔
    Shaped words h ∧ check (Header.defined h) 1 words.tail = .ok () := by
  rw [check_eq_ok_iff]
  constructor
  · intro ha
    refine ⟨ha.toShaped, fun i w hw => ?_⟩
    rw [List.getElem?_tail, Nat.add_comm] at hw
    obtain ⟨hi, -⟩ := List.getElem?_eq_some_iff.mp hw
    rw [ha.length, Header.words] at hi
    by_cases hgate : i < 2 * Header.gates h
    · obtain ⟨j, hj⟩ : ∃ j, 1 + i = 1 + 2 * j ∨ 1 + i = 2 + 2 * j := ⟨i / 2, by omega⟩
      have hgates : j < Header.gates h := by omega
      obtain ⟨hleft, hright⟩ := Header.defined_gate hgates
      rcases hj with hj | hj
      · rw [hj] at hw ⊢
        exact hleft ▸ ha.gates j w hgates (.inl hw)
      · rw [hj] at hw ⊢
        exact hright ▸ ha.gates j w hgates (.inr hw)
    · obtain ⟨k, rfl⟩ := Nat.exists_eq_add_of_le (Nat.not_lt.mp hgate)
      rw [← Nat.add_assoc] at hw ⊢
      rw [Header.defined_output]
      exact ha.outputs k w (by omega) hw
  · rintro ⟨hs, hall⟩
    have hraw (i : Nat) (w : UInt32) (hw : words[1 + i]? = some w) :
        Literal.node w < Header.defined h (1 + i) :=
      hall i w (by rwa [List.getElem?_tail, Nat.add_comm])
    refine ⟨hs, fun j w hj hw => ?_, fun k w _ hw => ?_⟩
    · obtain ⟨hleft, hright⟩ := Header.defined_gate hj
      rcases hw with hw | hw
      · exact hleft ▸ hraw (2 * j) w hw
      · have hsecond : 2 + 2 * j = 1 + (1 + 2 * j) := by omega
        rw [← hright, hsecond]
        exact hraw (1 + 2 * j) w (hsecond ▸ hw)
    · rw [← Header.defined_output, Nat.add_assoc]
      exact hraw _ w (by rwa [← Nat.add_assoc])

theorem undefined_iff {e : DecodeError} : Undefined words h e ↔
    Shaped words h ∧ check (Header.defined h) 1 words.tail = .error e := by
  rw [check_eq_error_iff]
  constructor
  · rintro ⟨hs, hi, hstands, hundefined, hfirst⟩
    obtain ⟨i, rfl⟩ := Nat.exists_eq_add_of_le hi
    refine ⟨hs, i, _, ⟨?_, hundefined, fun j v hj hv => ?_⟩, rfl⟩
    · rwa [List.getElem?_tail, Nat.add_comm]
    · rw [List.getElem?_tail, Nat.add_comm] at hv
      exact hfirst (1 + j) v (Nat.le_add_right 1 j) (Nat.add_lt_add_left hj 1) hv
  · rintro ⟨hs, i, w, ⟨hstands, hundefined, hfirst⟩, rfl⟩
    rw [List.getElem?_tail, Nat.add_comm] at hstands
    refine .literal hs (Nat.le_add_right 1 i) hstands hundefined fun j v hj hlt hv => ?_
    obtain ⟨j, rfl⟩ := Nat.exists_eq_add_of_le hj
    exact hfirst j v (Nat.lt_of_add_lt_add_left hlt) (by rwa [List.getElem?_tail, Nat.add_comm])

def decodeWords (words : List UInt32) (g : Xag) : Except DecodeError (Array Signal) := do
  let l ← ofWords words
  (l.decodeInto g).1

theorem decodeWords_eq {l : IndexList} (hl : ofWords words = .ok l) (g : Xag) :
    decodeWords words g = (l.decodeInto g).1 := by
  rw [decodeWords, hl]
  rfl

theorem Shaped.decodeWords_check (hs : Shaped words h) (g : Xag) :
    (decodeWords words g).map (fun _ => ()) = check (Header.defined h) 1 words.tail := by
  obtain ⟨l, hl, hinputs, hgates⟩ := hs.ofWords_eq
  have hdefined : l.definedAt = Header.defined h := by
    funext i
    rw [definedAt, Header.defined, hinputs, hgates]
  have htail : words.tail = unpairs l.gates ++ l.outputs := by
    rw [← toWords_of_ofWords hl]
    rfl
  rw [decodeWords_eq hl, htail, ← hdefined, decodeInto_check]

theorem Shaped.undefined_or_accepted (hs : Shaped words h) :
    (∃ e, Undefined words h e) ∨ Accepted words h := by
  cases hcheck : check (Header.defined h) 1 words.tail with
  | error e => exact .inl ⟨e, undefined_iff.mpr ⟨hs, hcheck⟩⟩
  | ok _ => exact .inr (accepted_iff.mpr ⟨hs, hcheck⟩)

theorem rejected_or_accepted (words : List UInt32) :
    (∃ e, Rejected words e) ∨ ∃ h, Accepted words h := by
  rcases misshapen_or_shaped words with ⟨e, he⟩ | ⟨h, hs⟩
  · exact .inl ⟨e, .misshapen he⟩
  · rcases hs.undefined_or_accepted with ⟨e, he⟩ | ha
    · exact .inl ⟨e, .undefined he⟩
    · exact .inr ⟨h, ha⟩

theorem Accepted.decodeWords_eq (ha : Accepted words h) (g : Xag) :
    ∃ signals, decodeWords words g = .ok signals := by
  obtain ⟨hs, hcheck⟩ := accepted_iff.mp ha
  rw [← hs.decodeWords_check g] at hcheck
  obtain ⟨signals, hdecode, -⟩ := map_eq_ok.mp hcheck
  exact ⟨signals, hdecode⟩

theorem Undefined.decodeWords_eq {e : DecodeError} (he : Undefined words h e) (g : Xag) :
    decodeWords words g = .error e := by
  obtain ⟨hs, hcheck⟩ := undefined_iff.mp he
  rw [← hs.decodeWords_check g] at hcheck
  exact map_eq_error.mp hcheck

theorem Rejected.decodeWords_eq {e : DecodeError} (he : Rejected words e) (g : Xag) :
    decodeWords words g = .error e := by
  cases he with
  | misshapen he =>
    rw [decodeWords, he.ofWords_eq]
    rfl
  | undefined he => exact he.decodeWords_eq g

/-- Just the accepted words are decoded inside a graph, and the error of any others is the one that
they are rejected for. -/
theorem decodeWords_iff (words : List UInt32) (g : Xag) :
    ((∃ signals, decodeWords words g = .ok signals) ↔ ∃ h, Accepted words h) ∧
      ∀ e, decodeWords words g = .error e ↔ Rejected words e :=
  ok_iff_error_iff (fun ⟨_, ha⟩ => ha.decodeWords_eq g) (fun _ he => he.decodeWords_eq g)
    (rejected_or_accepted words)

end Words

end IndexList
end LogicResynthesis

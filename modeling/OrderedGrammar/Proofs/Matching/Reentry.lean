import OrderedGrammar.Proofs.Matching.Nesting
import OrderedGrammar.Proofs.Pattern.Lawful

/-!
Left recursion is what evaluations do not end for. Evaluations are made inside one another
(`Nests`): one ends if and only if all those do that are made right inside it (`finishes_iff`). So
an evaluation that does not end has another one of the kind inside it, and so on for ever; as there
are finitely many rules and places, some rule is entered twice at one place
(`reenters_of_endless`). Conversely, what a rule comes to at a place depends on nothing else, so an
evaluation that comes back to the rule and place that it began with comes back for ever
(`endless_of_reentry`).
-/

namespace OrderedGrammar.Matching

section Calls

variable [Regex] {g : Grammar} {text : Text}

/-! ### Evaluations inside of evaluations -/

/-- What an evaluation is asked: a validator, an offset, and the tag of nodes outside every rule. -/
structure Call where
  validator : Validator
  pos : Nat
  tag : String

namespace Call

/-- The evaluation ends without running out of depth. -/
def FinishesWithin (g : Grammar) (text : Text) (depth : Nat) (c : Call) : Prop :=
  evaluate g text depth c.validator c.pos c.tag ≠ .error .depthExceeded

/-- The evaluation ends, given depth enough. -/
def Finishes (g : Grammar) (text : Text) (c : Call) : Prop := ∃ depth, c.FinishesWithin g text depth

end Call

/-- The first evaluation makes the second one. What is tried before it has come to an end. -/
inductive Nests (g : Grammar) (text : Text) : Call → Call → Prop
  /-- An alternative is tried where all before it have failed. -/
  | alternative {name pos tag alternatives i v} (h : g.rule? name = some alternatives)
    (hi : alternatives[i]? = some v)
    (before : ∀ w ∈ alternatives.take i, Ends g text w pos name (.ok none)) :
    Nests g text ⟨.ref name, pos, tag⟩ ⟨v, pos, name⟩
  /-- A round begins where the one before it stopped, if that one has taken something. There is one
  round only of an optional validator. -/
  | round {v arity pos tag ts} (once : arity = .zeroOrOne → ts = [])
    (rounds : Linked (fun _ p t => Ends g text v p tag (.ok (some t)) ∧ p < t.stop) pos ts) :
    Nests g text ⟨.quantified v arity, pos, tag⟩ ⟨v, stopAfter pos ts, tag⟩
  /-- An item is tried where the one before it stopped. -/
  | item {items pos tag ts v} (hv : items[ts.length]? = some v)
    (chain : Linked (fun i p t => ∀ w, items[i]? = some w → Ends g text w p tag (.ok (some t)))
      pos ts) :
    Nests g text ⟨.sequence items, pos, tag⟩ ⟨v, stopAfter pos ts, tag⟩

/-- In the course of the evaluation, a rule is entered at an offset at which an evaluation of that
rule is in progress. -/
def Reenters (g : Grammar) (text : Text) (c : Call) : Prop :=
  ∃ name pos tag tag', Relation.ReflTransGen (Nests g text) c ⟨.ref name, pos, tag⟩ ∧
    Relation.TransGen (Nests g text) ⟨.ref name, pos, tag⟩ ⟨.ref name, pos, tag'⟩

/-! ### What ends inside of what ends -/

section Within

variable {depth pos : Nat} {tag : String}

/-- Within any depth, an evaluation ends as it does or runs out of depth. -/
theorem Ends.within {v : Validator} {o : Outcome} (h : Ends g text v pos tag o) (depth : Nat) :
    evaluate g text depth v pos tag = o ∨ evaluate g text depth v pos tag = .error .depthExceeded :=
  or_iff_not_imp_right.mpr fun ends => (ends_of_evaluate rfl ends).unique h

/-- Alternatives run out of depth if one does that is tried. -/
theorem firstMatch_exceeds {attempt : Validator → Outcome} {alternatives : List Validator} {i : Nat}
    {v : Validator} (hi : alternatives[i]? = some v) (hv : attempt v = .error .depthExceeded)
    (before : ∀ w ∈ alternatives.take i,
      attempt w = .ok none ∨ attempt w = .error .depthExceeded) :
    firstMatch attempt alternatives = .error .depthExceeded := by
  induction alternatives generalizing i with
  | nil => cases hi
  | cons w rest ih =>
    cases i with
    | zero =>
      obtain rfl : w = v := Option.some.inj hi
      rw [firstMatch_take (by simp [hv]), hv]
    | succ i =>
      obtain ⟨first, others⟩ := List.forall_mem_cons.mp before
      rcases first with hw | hw
      · rw [firstMatch_skip hw]
        exact ih hi others
      · rw [firstMatch_take (by simp [hw]), hw]

/-- Items run out of depth if one does that is tried. -/
theorem chain_exceeds {attempt : Validator → Nat → Outcome} {items : List Validator}
    {ts : List Tree} {v : Validator} (hv : items[ts.length]? = some v)
    (last : attempt v (stopAfter pos ts) = .error .depthExceeded)
    (passed : Linked (fun i p t => ∀ w, items[i]? = some w →
      attempt w p = .ok (some t) ∨ attempt w p = .error .depthExceeded) pos ts) :
    chain attempt items pos = .error .depthExceeded := by
  induction items generalizing pos ts with
  | nil => cases hv
  | cons w rest ih =>
    cases ts with
    | nil =>
      obtain rfl : w = v := Option.some.inj hv
      exact chain_broken (b := some .depthExceeded) last
    | cons t ts =>
      obtain ⟨first, others⟩ := linked_cons.mp passed
      rw [stopAfter_cons] at last
      rcases first w rfl with hw | hw
      · rw [chain_some hw, ih hv last (by simpa using others)]
        rfl
      · exact chain_broken (b := some .depthExceeded) hw

omit [Regex] in
/-- Where rounds are made that may run out of depth, and one of them or the next one does, there is
a first one that does. -/
theorem exists_first_round {attempt : Nat → Outcome} {ts : List Tree}
    (last : attempt (stopAfter pos ts) = .error .depthExceeded)
    (made : Linked (fun _ p t => (attempt p = .ok (some t) ∨ attempt p = .error .depthExceeded) ∧
      p < t.stop) pos ts) :
    ∃ us, (ts = [] → us = []) ∧ Rounds attempt pos us ∧
      attempt (stopAfter pos us) = .error .depthExceeded := by
  induction ts generalizing pos with
  | nil => exact ⟨[], id, rounds_nil, last⟩
  | cons t ts ih =>
    obtain ⟨⟨ht | ht, hlt⟩, others⟩ := linked_cons.mp made
    · rw [stopAfter_cons] at last
      obtain ⟨us, -, rounds, hus⟩ := ih last others
      refine ⟨t :: us, by simp, rounds_cons.mpr ⟨⟨ht, hlt⟩, rounds⟩, ?_⟩
      rwa [stopAfter_cons]
    · exact ⟨[], fun _ => rfl, rounds_nil, ht⟩

/-- A quantified validator runs out of depth if a round does that is made. -/
theorem quantified_exceeds [LawfulRegex] {v : Validator} {arity : Arity} {ts : List Tree}
    (once : arity = .zeroOrOne → ts = [])
    (rounds : Rounds (fun p => evaluate g text depth v p tag) pos ts)
    (last : evaluate g text depth v (stopAfter pos ts) tag = .error .depthExceeded) :
    evaluate g text (depth + 1) (.quantified v arity) pos tag = .error .depthExceeded := by
  by_cases ha : arity = .zeroOrOne
  · obtain rfl := once ha
    rw [stopAfter_nil] at last
    rw [ha, evaluate_opt, last]
    rfl
  · have goesOn : ¬ Halts (fun p => evaluate g text depth v p tag) pos := by
      cases ts with
      | nil => exact fun halts => halts.not_error last
      | cons t ts => exact fun halts => halts.not_rounds (by simp) rounds
    rw [evaluate_rounds (by cases arity <;> simp_all),
      (iterate_eq_error_iff (bounded_evaluate depth v tag) (by omega) (by omega)).mpr
        ⟨ts, rounds, last⟩]
    rfl

/-- An evaluation that is made inside of another one ends within one level less. -/
theorem Nests.finishesWithin [LawfulRegex] {c d : Call} (h : Nests g text c d)
    (finishes : c.FinishesWithin g text (depth + 1)) : d.FinishesWithin g text depth := by
  intro exceeds
  apply finishes
  cases h with
  | alternative h hi before =>
    rw [evaluate_ref h, firstMatch_exceeds hi exceeds fun w hw => (before w hw).within depth]
    rfl
  | @round v arity pos tag ts once rounds =>
    obtain ⟨us, none, made, last⟩ := exists_first_round exceeds
      (rounds.imp fun _ _ _ ht => ⟨ht.1.within depth, ht.2⟩)
    exact quantified_exceeds (fun ha => none (once ha)) made last
  | item hv chain =>
    rw [evaluate_sequence,
      chain_exceeds hv exceeds (chain.imp fun _ _ _ ht w hw => (ht w hw).within depth)]
    rfl

/-- An evaluation runs out of depth only if one does that is made right inside it, one level less
being left for that. -/
theorem exists_nests_of_exceeds [LawfulRegex] {c : Call}
    (h : ¬ c.FinishesWithin g text (depth + 1)) :
    ∃ d, Nests g text c d ∧ ¬ d.FinishesWithin g text depth := by
  obtain ⟨v, pos, tag⟩ := c
  simp only [Call.FinishesWithin, not_not] at h ⊢
  cases v with
  | terminal t => rw [evaluate] at h; cases h
  | ref name =>
    cases hr : g.rule? name with
    | none => rw [evaluate_ref_of_none hr] at h; cases h
    | some alternatives =>
      rw [evaluate_ref hr] at h
      obtain ⟨i, v, hi, hv, before⟩ := (firstMatch_eq_iff (by simp [broken])).mp
        (map_eq_broken_iff (b := some .depthExceeded).mp h)
      exact ⟨_, .alternative hr hi fun w hw => ends_of_evaluate (before w hw) (by simp), hv⟩
  | quantified inner arity =>
    obtain ⟨ts, once, rounds, last⟩ := quantified_eq_error h
    have made := rounds.imp (S := fun _ p t => Ends g text inner p tag (.ok (some t)) ∧ p < t.stop)
      fun _ _ _ ht => ⟨ends_of_evaluate ht.1 (by simp), ht.2⟩
    exact ⟨_, .round once made, last⟩
  | sequence items =>
    rw [evaluate_sequence] at h
    obtain ⟨ts, v, hv, passed, last⟩ :=
      chain_eq_broken_iff.mp (map_eq_broken_iff (b := some .depthExceeded).mp h)
    exact ⟨_, .item hv (passed.imp fun _ _ _ ht w hw => ends_of_evaluate (ht w hw) (by simp)), last⟩
  | foreign x => rw [evaluate] at h; cases h

end Within

/-! ### What ends because all inside of it does -/

namespace Call

/-- The validators that are tried right inside an evaluation. -/
def parts (g : Grammar) (c : Call) : List Validator :=
  match c.validator with
  | .ref name => (g.rule? name).getD []
  | .quantified inner _ => [inner]
  | .sequence items => items
  | _ => []

/-- The tag that is carried right inside an evaluation. -/
def innerTag (c : Call) : String :=
  match c.validator with
  | .ref name => name
  | _ => c.tag

theorem FinishesWithin.mono {c : Call} {depth depth' : Nat} (h : c.FinishesWithin g text depth)
    (hd : depth ≤ depth') : c.FinishesWithin g text depth' := by
  unfold FinishesWithin at h ⊢
  rwa [evaluate_mono rfl h hd]

theorem not_finishesWithin_zero {c : Call} : ¬ c.FinishesWithin g text 0 := by
  simp [FinishesWithin, evaluate]

end Call

variable [LawfulRegex]

/-- Evaluations inside of others are about parts, and lie in the text or where the others begin. -/
theorem Nests.part {c d : Call} (h : Nests g text c d) :
    d.validator ∈ c.parts g ∧ d.tag = c.innerTag ∧ d.pos ≤ max c.pos text.size := by
  -- what has been taken before ends in the text
  have moved {pos : Nat} {ts : List Tree} (hl : Linked (fun _ p t => Covers text p t) pos ts) :
      stopAfter pos ts ≤ max pos text.size := by
    have list : Covers text pos (listNode "" pos ts) := covers_listNode hl
    exact list.2.2
  have covers {v : Validator} {pos : Nat} {tag : String} {t : Tree}
      (ends : Ends g text v pos tag (.ok (some t))) : Covers text pos t := by
    obtain ⟨n, hn⟩ := ends
    exact evaluate_bounds (hn n (Nat.le_refl n))
  cases h with
  | alternative h hi before =>
    refine ⟨?_, rfl, Nat.le_max_left _ _⟩
    simpa [Call.parts, h] using List.mem_of_getElem? hi
  | round once rounds =>
    exact ⟨List.mem_singleton_self _, rfl, moved (rounds.imp fun _ _ _ ht => covers ht.1)⟩
  | item hv chain =>
    have taken := Linked.items (R := fun v p t => Ends g text v p _ (.ok (some t))) chain
      (Nat.le_of_lt (List.getElem?_eq_some_iff.mp hv).1)
    refine ⟨List.mem_of_getElem? hv, rfl, moved (taken.imp fun _ _ _ ht => ?_)⟩
    obtain ⟨_, _, ends⟩ := ht
    exact covers ends

/-- There are finitely many evaluations right inside of one, so if all of them end, some depth is
enough for all. -/
theorem finishes_of_nests {c : Call} (h : ∀ d, Nests g text c d → d.Finishes g text) :
    c.Finishes g text := by
  let inside := (c.parts g).flatMap fun v =>
    (List.range (max c.pos text.size + 1)).map fun p => (⟨v, p, c.innerTag⟩ : Call)
  have mem_inside {d : Call} (hd : Nests g text c d) : d ∈ inside := by
    obtain ⟨hv, htag, hpos⟩ := hd.part
    refine List.mem_flatMap.mpr ⟨_, hv, List.mem_map.mpr ⟨d.pos, ?_, ?_⟩⟩
    · exact List.mem_range.mpr (Nat.lt_succ_of_le hpos)
    · rw [← htag]
  have enough : ∃ n, ∀ depth, n ≤ depth →
      ∀ d ∈ inside, d.Finishes g text → d.FinishesWithin g text depth := by
    refine common_of_mem fun d _ => ?_
    by_cases hd : d.Finishes g text
    · obtain ⟨n, hn⟩ := hd
      exact ⟨n, fun depth hle _ => hn.mono hle⟩
    · exact ⟨0, fun depth _ finishes => absurd finishes hd⟩
  obtain ⟨n, hn⟩ := enough
  refine ⟨n + 1, ?_⟩
  by_contra exceeds
  obtain ⟨d, hd, inner⟩ := exists_nests_of_exceeds exceeds
  exact inner (hn n (Nat.le_refl n) d (mem_inside hd) (h d hd))

/-- An evaluation ends if and only if all evaluations right inside of it do. -/
theorem finishes_iff {c : Call} :
    c.Finishes g text ↔ ∀ d, Nests g text c d → d.Finishes g text := by
  refine ⟨fun ⟨depth, hc⟩ d hd => ?_, finishes_of_nests⟩
  exact ⟨depth, hd.finishesWithin (hc.mono (Nat.le_succ depth))⟩

/-! ### From no end to a rule that is entered again -/

/-- What does not end has evaluations inside of one another without end. -/
theorem exists_descent {c : Call} (h : ¬ c.Finishes g text) :
    ∃ f : Nat → Call, f 0 = c ∧ ∀ n, Nests g text (f n) (f (n + 1)) := by
  have finishes {c : Call} (acc : Acc (fun d c => Nests g text c d) c) : c.Finishes g text := by
    induction acc with
    | intro c _ ih => exact finishes_of_nests ih
  exact not_acc_iff_exists_descending_chain.mp fun acc => h (finishes acc)

/-- Only at a reference the validators inside of one another do not get smaller. -/
theorem Nests.height_lt {c d : Call} (h : Nests g text c d)
    (hc : ∀ name, c.validator ≠ .ref name) : d.validator.height < c.validator.height := by
  have part := h.part.1
  obtain ⟨v, pos, tag⟩ := c
  cases v with
  | ref name => exact absurd rfl (hc name)
  | quantified inner arity =>
    rw [List.mem_singleton.mp part, Validator.height]
    exact Nat.lt_succ_self _
  | sequence items =>
    rw [Validator.height]
    exact Nat.lt_succ_of_le (Validator.height_le_heightAll part)
  | terminal t => cases part
  | foreign x => cases part

/-- A rule that something is evaluated inside of is declared. -/
theorem Nests.declared {c d : Call} {name : String} (h : Nests g text c d)
    (hc : c.validator = .ref name) : name ∈ g.ruleNames := by
  have part := h.part.1
  simp only [Call.parts, hc] at part
  cases hr : g.rule? name with
  | none => simp [hr] at part
  | some alternatives => exact Grammar.mem_ruleNames_of_rule? hr

section Descent

variable {f : Nat → Call} (hf : ∀ n, Nests g text (f n) (f (n + 1)))

include hf

/-- Again and again a rule is entered. -/
theorem exists_entered (n : Nat) : ∃ m ≥ n, ∃ name, (f m).validator = .ref name := by
  -- until then the validators get smaller
  induction hh : (f n).validator.height using Nat.strong_induction_on generalizing n with
  | _ height ih =>
    by_cases entered : ∃ name, (f n).validator = .ref name
    · exact ⟨n, Nat.le_refl n, entered⟩
    · have smaller := (hf n).height_lt fun name h => entered ⟨name, h⟩
      obtain ⟨m, hm, hname⟩ := ih _ (hh ▸ smaller) (n + 1) rfl
      exact ⟨m, Nat.le_of_succ_le hm, hname⟩

theorem pos_le (n : Nat) : (f n).pos ≤ max (f 0).pos text.size := by
  induction n with
  | zero => exact Nat.le_max_left _ _
  | succ n ih =>
    have := (hf n).part.2.2
    omega

/-- There are only so many rules and places, so that one of the rules is entered again where it was
entered before. -/
theorem exists_reentry : ∃ name i j, i < j ∧ (f i).validator = .ref name ∧
    (f j).validator = .ref name ∧ (f i).pos = (f j).pos := by
  obtain ⟨φ, later, entered⟩ := Nat.exists_strictMono_subsequence
    (P := fun n => ∃ name, (f n).validator = .ref name) fun n => exists_entered hf (n + 1)
  choose name hname using entered
  have places : ∀ n, (name n, (f (φ n)).pos) ∈
      (g.ruleNames.toFinset ×ˢ Finset.range (max (f 0).pos text.size + 1) : Finset _) := by
    intro n
    refine Finset.mem_product.mpr ⟨?_, ?_⟩
    · exact List.mem_toFinset.mpr ((hf (φ n)).declared (hname n))
    · exact Finset.mem_range.mpr (Nat.lt_succ_of_le (pos_le hf (φ n)))
  obtain ⟨i, j, hij, heq⟩ := Set.Finite.exists_lt_map_eq_of_forall_mem places
    (Finset.finite_toSet _)
  obtain ⟨sameName, samePos⟩ := Prod.mk.inj heq
  exact ⟨name i, φ i, φ j, later hij, hname i, sameName ▸ hname j, samePos⟩

omit [LawfulRegex] in
theorem transGen_of_lt {i j : Nat} (hij : i < j) :
    Relation.TransGen (Nests g text) (f i) (f j) := by
  have steps := transGen_of_succ_of_lt (fun i j => Nests g text (f i) (f j))
    (fun n _ => hf n) hij
  exact steps.lift f fun _ _ h => h

end Descent

theorem reenters_of_endless {c : Call} (h : ¬ c.Finishes g text) : Reenters g text c := by
  obtain ⟨f, rfl, hf⟩ := exists_descent h
  obtain ⟨name, i, j, hij, hi, hj, hpos⟩ := exists_reentry hf
  have first : f i = ⟨.ref name, (f i).pos, (f i).tag⟩ := by rw [← hi]
  have second : f j = ⟨.ref name, (f i).pos, (f j).tag⟩ := by rw [← hj, hpos]
  refine ⟨name, (f i).pos, (f i).tag, (f j).tag, ?_, ?_⟩
  · rw [← first]
    rcases Nat.eq_zero_or_pos i with rfl | pos
    · exact .refl
    · exact (transGen_of_lt hf pos).to_reflTransGen
  · rw [← first, ← second]
    exact transGen_of_lt hf hij

/-! ### From a rule that is entered again to no end -/

theorem finishesWithin_of_transGen {c d : Call} (h : Relation.TransGen (Nests g text) c d)
    {depth : Nat} (finishes : c.FinishesWithin g text depth) :
    ∃ depth' < depth, d.FinishesWithin g text depth' := by
  have step {c d : Call} {depth : Nat} (h : Nests g text c d)
      (finishes : c.FinishesWithin g text depth) :
      ∃ depth' < depth, d.FinishesWithin g text depth' := by
    cases depth with
    | zero => exact absurd finishes Call.not_finishesWithin_zero
    | succ depth => exact ⟨depth, Nat.lt_succ_self depth, h.finishesWithin finishes⟩
  induction h with
  | single h => exact step h finishes
  | tail _ h ih =>
    obtain ⟨depth', hlt, ends⟩ := ih
    obtain ⟨depth'', hlt', ends'⟩ := step h ends
    exact ⟨depth'', hlt'.trans hlt, ends'⟩

theorem Call.Finishes.of_reflTransGen {c d : Call} (h : Relation.ReflTransGen (Nests g text) c d)
    (finishes : c.Finishes g text) : d.Finishes g text := by
  induction h with
  | refl => exact finishes
  | tail _ h ih => exact finishes_iff.mp ih _ h

omit [LawfulRegex] in
/-- The tag makes no difference to a reference. -/
theorem evaluate_ref_tag (name : String) (depth pos : Nat) (tag tag' : String) :
    evaluate g text depth (.ref name) pos tag = evaluate g text depth (.ref name) pos tag' := by
  cases depth with
  | zero => rw [evaluate, evaluate]
  | succ depth => rw [evaluate, evaluate]

/-- A rule that is entered again where it was entered before is entered there without end, since
each time it is evaluated in the same way. -/
theorem endless_of_reentry {name : String} {pos : Nat} {tag tag' : String}
    (h : Relation.TransGen (Nests g text) ⟨.ref name, pos, tag⟩ ⟨.ref name, pos, tag'⟩)
    (depth : Nat) : ¬ (⟨.ref name, pos, tag⟩ : Call).FinishesWithin g text depth := by
  induction depth using Nat.strong_induction_on with
  | _ depth ih =>
    intro finishes
    obtain ⟨depth', hlt, again⟩ := finishesWithin_of_transGen h finishes
    apply ih depth' hlt
    unfold Call.FinishesWithin at again ⊢
    rwa [evaluate_ref_tag name depth' pos tag tag']

/-- Evaluation runs out of every depth if and only if, in the course of it, some rule is entered at
an offset at which an evaluation of the same rule is in progress. -/
theorem endless_iff_reenters (g : Grammar) (v : Validator) (text : Text) (pos : Nat)
    (tag : String) :
    (∀ depth, evaluate g text depth v pos tag = .error .depthExceeded) ↔
      Reenters g text ⟨v, pos, tag⟩ := by
  constructor
  · intro endless
    refine reenters_of_endless ?_
    rintro ⟨depth, finishes⟩
    exact finishes (endless depth)
  · rintro ⟨name, p, tag₁, tag₂, reached, again⟩ depth
    by_contra finishes
    obtain ⟨depth', entered⟩ := Call.Finishes.of_reflTransGen reached ⟨depth, finishes⟩
    exact endless_of_reentry again depth' entered

end Calls

/-- A rule that is nothing but itself. -/
def selfCalling : Grammar := ⟨"self", [("self", [.ref "self"])]⟩

theorem selfCalling_exceeds (text : Text) (depth : Nat) (tag : String) :
    evaluate selfCalling text depth (.ref "self") 0 tag = .error .depthExceeded := by
  induction depth generalizing tag with
  | zero => rw [evaluate]
  | succ depth ih =>
    rw [evaluate_ref rfl, firstMatch_take (by simp [ih]), ih]
    rfl

theorem selfCalling_reenters :
    (∀ depth, evaluate selfCalling #['7'] depth (.ref "self") 0 "" = .error .depthExceeded) ∧
      Reenters selfCalling #['7'] ⟨.ref "self", 0, ""⟩ := by
  have endless := fun depth => selfCalling_exceeds #['7'] depth ""
  exact ⟨endless, (endless_iff_reenters selfCalling (.ref "self") #['7'] 0 "").mp endless⟩

end OrderedGrammar.Matching

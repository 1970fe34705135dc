import OrderedGrammar.Proofs.Grammar.Flatten
import OrderedGrammar.Proofs.Matching.Stops

/-!
Validators and grammars that stop at the same places. A validator may be replaced by one that agrees
with it under any quantifier and in any sequence, and the alternatives of a grammar by others that
agree with them (`Stops.carry`). Sequences in sequences may be laid out in line, in a validator
(`stops_flatten`) and in all rules of a grammar (`stops_flatten_grammar`).
-/

namespace OrderedGrammar.Matching

variable [Regex] {g : Grammar} {text : Text} {v w : Validator} {vs ws : List Validator} {pos : Nat}
  {x : Stop}

/-! ### Rounds -/

/-- What holds where there is no further round, and of each round if it holds of the rounds after
it, holds of all rounds. -/
theorem LoopStops.rounds_induction {P : Nat → Stop → Prop}
    (halt : ∀ {pos o}, Stops g text v pos (.ok o) → (∀ stop, o = some stop → stop ≤ pos) →
      P pos (.ok (some pos)))
    (next : ∀ {pos stop x}, Stops g text v pos (.ok (some stop)) → pos < stop →
      LoopStops g text v stop x → P stop x → P pos x)
    (error : ∀ {pos e}, Stops g text v pos (.error e) → P pos (.error e))
    {pos : Nat} {x : Stop} (h : LoopStops g text v pos x) : P pos x := by
  -- rounds are defined along with three other relations, so `induction` does not apply
  match h with
  | .halt hv hle => exact halt hv hle
  | .next hv hlt hs => exact next hv hlt hs (hs.rounds_induction halt next error)
  | .error hv => exact error hv

/-! ### Replacing a validator -/

/-- The second stops wherever the first does. -/
def Follows (g : Grammar) (text : Text) (v w : Validator) : Prop :=
  ∀ pos x, Stops g text v pos x → Stops g text w pos x

theorem LoopStops.follow {pos : Nat} {x : Stop} (h : Follows g text v w)
    (hs : LoopStops g text v pos x) : LoopStops g text w pos x := by
  refine hs.rounds_induction (P := LoopStops g text w) ?_ ?_ ?_
  · exact fun hv hle => .halt (h _ _ hv) hle
  · exact fun hv hlt _ ih => .next (h _ _ hv) hlt ih
  · exact fun hv => .error (h _ _ hv)

theorem Follows.quantified (h : Follows g text v w) (arity : Arity) :
    Follows g text (.quantified v arity) (.quantified w arity) := by
  intro pos x hs
  cases hs with
  | once hv => exact .once (h _ _ hv)
  | noOnce hv => exact .noOnce (h _ _ hv)
  | onceError hv => exact .onceError (h _ _ hv)
  | many hs => exact .many (hs.follow h)
  | some hv hs => exact .some (h _ _ hv) (hs.follow h)
  | someBroken hv hx => exact .someBroken (h _ _ hv) hx

theorem FirstStops.follow {f : Validator → Validator} (h : ∀ v ∈ vs, Follows g text v (f v))
    (hs : FirstStops g text vs pos x) : FirstStops g text (vs.map f) pos x := by
  induction vs with
  | nil => exact hs
  | cons v vs ih =>
    obtain ⟨first, others⟩ := List.forall_mem_cons.mp h
    cases hs with
    | skip hv hs => exact .skip (first _ _ hv) (ih others hs)
    | take hv hx => exact .take (first _ _ hv) hx

theorem FirstStops.unfollow {f : Validator → Validator} (h : ∀ v ∈ vs, Follows g text (f v) v)
    (hs : FirstStops g text (vs.map f) pos x) : FirstStops g text vs pos x := by
  induction vs with
  | nil => exact hs
  | cons v vs ih =>
    obtain ⟨first, others⟩ := List.forall_mem_cons.mp h
    rw [List.map_cons] at hs
    cases hs with
    | skip hv hs => exact .skip (first _ _ hv) (ih others hs)
    | take hv hx => exact .take (first _ _ hv) hx

/-! ### Chains in line -/

theorem chainStops_single : ChainStops g text [v] pos x ↔ Stops g text v pos x := by
  constructor
  · intro h
    cases h with
    | next h hs =>
      cases hs
      exact h
    | broken h _ => exact h
  · intro h
    by_cases hx : NoMatch x
    · exact .broken h hx
    · obtain ⟨stop, rfl⟩ : ∃ stop, x = .ok (some stop) := by simpa [NoMatch] using hx
      exact .next h .nil

/-- Items in line come to what the first of them come to if they break, and otherwise to what the
others come to from where they stop. -/
theorem chainStops_append : ChainStops g text (vs ++ ws) pos x ↔
    (∃ stop, ChainStops g text vs pos (.ok (some stop)) ∧ ChainStops g text ws stop x) ∨
      NoMatch x ∧ ChainStops g text vs pos x := by
  induction vs generalizing pos with
  | nil =>
    constructor
    · exact fun h => Or.inl ⟨pos, .nil, h⟩
    · rintro (⟨stop, h, hs⟩ | ⟨hx, h⟩)
      · cases h
        exact hs
      · cases h
        exact absurd rfl (hx _)
  | cons v vs ih =>
    constructor
    · intro h
      cases h with
      | next h hs =>
        rcases ih.mp hs with ⟨stop, hvs, hws⟩ | ⟨hx, hvs⟩
        · exact Or.inl ⟨stop, .next h hvs, hws⟩
        · exact Or.inr ⟨hx, .next h hvs⟩
      | broken h hx => exact Or.inr ⟨hx, .broken h hx⟩
    · rintro (⟨stop, h, hws⟩ | ⟨hx, h⟩)
      · cases h with
        | next h hs => exact .next h (ih.mpr (Or.inl ⟨stop, hs, hws⟩))
        | broken h hx => exact absurd rfl (hx _)
      · cases h with
        | next h hs => exact .next h (ih.mpr (Or.inr ⟨hx, hs⟩))
        | broken h hx => exact .broken h hx

/-- A chain is a matter of what its first item comes to, and the chain of the others. -/
theorem chainStops_cons : ChainStops g text (v :: vs) pos x ↔
    (∃ stop, Stops g text v pos (.ok (some stop)) ∧ ChainStops g text vs stop x) ∨
      NoMatch x ∧ Stops g text v pos x := by
  rw [← List.singleton_append, chainStops_append]
  simp only [chainStops_single]

theorem stops_sequence : Stops g text (.sequence vs) pos x ↔ ChainStops g text vs pos x := by
  constructor
  · intro h
    cases h with
    | sequence h => exact h
  · exact .sequence

mutual

/-- A validator comes to what its parts come to in line. -/
theorem stops_parts (v : Validator) (pos : Nat) (x : Stop) :
    Stops g text v pos x ↔ ChainStops g text v.parts pos x := by
  match v with
  | .terminal t => exact chainStops_single.symm
  | .ref name => exact chainStops_single.symm
  | .foreign y => exact chainStops_single.symm
  | .sequence items => exact stops_sequence.trans (chainStops_partsAll items pos x)
  | .quantified inner arity =>
    rw [Validator.parts, chainStops_single]
    constructor
    · exact Follows.quantified (fun p y => (stops_flatten inner p y).mp) arity pos x
    · exact Follows.quantified (fun p y => (stops_flatten inner p y).mpr) arity pos x

theorem chainStops_partsAll (items : List Validator) (pos : Nat) (x : Stop) :
    ChainStops g text items pos x ↔ ChainStops g text (Validator.partsAll items) pos x := by
  match items with
  | [] => exact Iff.rfl
  | v :: rest =>
    rw [Validator.partsAll, chainStops_append, chainStops_cons]
    refine or_congr (exists_congr fun stop => ?_) (and_congr_right fun _ => stops_parts v pos x)
    exact and_congr (stops_parts v pos _) (chainStops_partsAll rest stop x)

/-- Laying out a validator in line does not change what it comes to. -/
theorem stops_flatten (v : Validator) (pos : Nat) (x : Stop) :
    Stops g text v pos x ↔ Stops g text v.flatten pos x := by
  match v with
  | .terminal t => exact Iff.rfl
  | .ref name => exact Iff.rfl
  | .foreign y => exact Iff.rfl
  | .sequence items =>
    rw [Validator.flatten, stops_sequence, stops_sequence]
    exact chainStops_partsAll items pos x
  | .quantified inner arity =>
    rw [Validator.flatten]
    constructor
    · exact Follows.quantified (fun p y => (stops_flatten inner p y).mp) arity pos x
    · exact Follows.quantified (fun p y => (stops_flatten inner p y).mpr) arity pos x

end

/-! ### Replacing the rules of a grammar -/

/-- What the alternatives of a rule come to under the second grammar is what the rule comes to
there. -/
structure Carries (g g' : Grammar) (text : Text) : Prop where
  undefined : ∀ name, g.rule? name = none → g'.rule? name = none
  defined : ∀ name alternatives, g.rule? name = some alternatives →
    ∃ alternatives', g'.rule? name = some alternatives' ∧ ∀ pos x,
      FirstStops g' text alternatives pos x → FirstStops g' text alternatives' pos x

section Carries

variable {g' : Grammar}

mutual

/-- What stops under a grammar does so under one that carries it. -/
theorem Stops.carry {v : Validator} {pos : Nat} {x : Stop} (c : Carries g g' text)
    (h : Stops g text v pos x) : Stops g' text v pos x := by
  match h with
  | .terminal => exact .terminal
  | .undefined h => exact .undefined (c.undefined _ h)
  | .ref h hs =>
    obtain ⟨alternatives', h', follow⟩ := c.defined _ _ h
    exact .ref h' (follow _ _ (hs.carry c))
  | .sequence h => exact .sequence (h.carry c)
  | .once h => exact .once (h.carry c)
  | .noOnce h => exact .noOnce (h.carry c)
  | .onceError h => exact .onceError (h.carry c)
  | .many h => exact .many (h.carry c)
  | .some h hs => exact .some (h.carry c) (hs.carry c)
  | .someBroken h hx => exact .someBroken (h.carry c) hx
  | .foreign => exact .foreign

theorem FirstStops.carry {alternatives : List Validator} {pos : Nat} {x : Stop}
    (c : Carries g g' text) (h : FirstStops g text alternatives pos x) :
    FirstStops g' text alternatives pos x := by
  match h with
  | .nil => exact .nil
  | .skip h hs => exact .skip (h.carry c) (hs.carry c)
  | .take h hx => exact .take (h.carry c) hx

theorem ChainStops.carry {items : List Validator} {pos : Nat} {x : Stop} (c : Carries g g' text)
    (h : ChainStops g text items pos x) : ChainStops g' text items pos x := by
  match h with
  | .nil => exact .nil
  | .next h hs => exact .next (h.carry c) (hs.carry c)
  | .broken h hx => exact .broken (h.carry c) hx

theorem LoopStops.carry {inner : Validator} {pos : Nat} {x : Stop} (c : Carries g g' text)
    (h : LoopStops g text inner pos x) : LoopStops g' text inner pos x := by
  match h with
  | .halt h hle => exact .halt (h.carry c) hle
  | .next h hlt hs => exact .next (h.carry c) hlt (hs.carry c)
  | .error h => exact .error (h.carry c)

end

end Carries

theorem carries_flatten (g : Grammar) (text : Text) : Carries g g.flatten text where
  undefined name h := by rw [Grammar.rule?_flatten, h]; rfl
  defined name alternatives h := by
    refine ⟨alternatives.map Validator.flatten, by rw [Grammar.rule?_flatten, h]; rfl, ?_⟩
    exact fun pos x => FirstStops.follow fun v _ p y => (stops_flatten v p y).mp

theorem flatten_carries (g : Grammar) (text : Text) : Carries g.flatten g text where
  undefined name h := by
    rw [Grammar.rule?_flatten] at h
    exact Option.map_eq_none_iff.mp h
  defined name alternatives h := by
    rw [Grammar.rule?_flatten] at h
    obtain ⟨before, hb, rfl⟩ := Option.map_eq_some_iff.mp h
    refine ⟨before, hb, ?_⟩
    exact fun pos x => FirstStops.unfollow fun v _ p y => (stops_flatten v p y).mpr

/-- Laying out the rules of a grammar in line does not change what a validator comes to. -/
theorem stops_flatten_grammar : Stops g text v pos x ↔ Stops g.flatten text v pos x :=
  ⟨Stops.carry (carries_flatten g text), Stops.carry (flatten_carries g text)⟩

end OrderedGrammar.Matching

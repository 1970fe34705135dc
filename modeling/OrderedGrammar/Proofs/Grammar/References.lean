import OrderedGrammar.Proofs.Grammar.Calls

/-!
Which names the references of a grammar are. Names are collected one validator after the other, and
none twice; what is collected is what occurs somewhere in an alternative (`mem_references`), so
every rule that some rule calls is among the references (`Calls.mem_references`).
-/

namespace OrderedGrammar

variable [Regex]

namespace Validator

variable {name : String} {seen : List String}

omit [Regex] in
theorem mem_addName {other : String} : name ∈ addName seen other ↔ name ∈ seen ∨ name = other := by
  unfold addName
  split
  · next known =>
    have : other ∈ seen := by simpa using known
    constructor
    · exact Or.inl
    · rintro (h | rfl)
      · exact h
      · exact this
  · simp

theorem mem_mentionsAll_iff {vs : List Validator} :
    name ∈ mentionsAll vs ↔ ∃ v ∈ vs, name ∈ v.mentions := by
  induction vs with
  | nil => simp [mentionsAll]
  | cons v rest ih => simp [mentionsAll, ih]

mutual

/-- A validator adds the names that occur in it. -/
theorem mem_references : ∀ {v : Validator} {seen : List String},
    name ∈ references seen v ↔ name ∈ seen ∨ name ∈ v.mentions
  | terminal _, seen => by simp [references, mentions]
  | ref other, seen => by simp [references, mentions, mem_addName]
  | quantified inner _, seen => by
    rw [references, mentions]
    exact mem_references
  | sequence items, seen => by
    rw [references, mentions]
    exact mem_referencesAll
  | foreign _, seen => by simp [references, mentions]

theorem mem_referencesAll : ∀ {vs : List Validator} {seen : List String},
    name ∈ referencesAll seen vs ↔ name ∈ seen ∨ name ∈ mentionsAll vs
  | [], seen => by simp [referencesAll, mentionsAll]
  | v :: rest, seen => by
    rw [referencesAll, mentionsAll, mem_referencesAll, mem_references, List.mem_append, or_assoc]

end

end Validator

namespace Grammar

variable {g : Grammar} {name : String}

theorem mem_collected {rules : List (String × List Validator)} {seen : List String} :
    name ∈ rules.foldl (fun seen rule => Validator.referencesAll seen rule.2) seen ↔
      name ∈ seen ∨ ∃ rule ∈ rules, ∃ v ∈ rule.2, name ∈ v.mentions := by
  induction rules generalizing seen with
  | nil => simp
  | cons rule rest ih =>
    rw [List.foldl_cons, ih, Validator.mem_referencesAll, Validator.mem_mentionsAll_iff]
    simp [or_assoc]

/-- The references are the names that occur in the alternatives of the rules. -/
theorem mem_references :
    name ∈ g.references ↔ ∃ rule ∈ g.rules, ∃ v ∈ rule.2, name ∈ v.mentions := by
  rw [references, mem_collected]
  simp only [List.not_mem_nil, false_or]

theorem Calls.mem_references {caller : String} (h : g.Calls caller name) : name ∈ g.references := by
  obtain ⟨alternatives, v, hr, hv, hm⟩ := h
  exact Grammar.mem_references.mpr ⟨_, mem_rules_of_rule? hr, v, hv, hm⟩

theorem notMem_ruleNames_iff : name ∉ g.ruleNames ↔ g.rule? name = none := by
  constructor
  · intro undeclared
    cases hr : g.rule? name with
    | none => rfl
    | some alternatives => exact absurd (mem_ruleNames_of_rule? hr) undeclared
  · intro hr declared
    obtain ⟨rule, hrule, rfl⟩ := List.mem_map.mp declared
    have := List.lookup_eq_none_iff.mp hr rule hrule
    simp at this

end Grammar

end OrderedGrammar

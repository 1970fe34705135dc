import OrderedGrammar.Points.Grammar
import OrderedGrammar.Proofs.Grammar.References
import OrderedGrammar.Proofs.Matching.Entry
import OrderedGrammar.Proofs.Matching.Meaning
import OrderedGrammar.Proofs.Pattern.Lawful

/-!
Rules that are referred to and not declared. An evaluation ends at an undeclared rule only if the
name of it occurs in the validator that is evaluated, or in an alternative of some rule
(`undeclared_of_evaluate`). A grammar that declares its entry rule and all its references therefore
never ends a parse there (`references_complete`).
-/

namespace OrderedGrammar

namespace Matching

variable [Regex] {g : Grammar} {text : Text}

/-- An undeclared rule that stops an evaluation is named by the validator or called by a rule. -/
theorem Gives.undefined_of_error {v : Validator} {pos : Nat} {tag : String} {o : Outcome}
    (h : Gives g text v pos tag o) {name : String} (ho : o = .error (.undefinedRule name)) :
    g.rule? name = none ∧ (name ∈ v.mentions ∨ ∃ caller, g.Calls caller name) := by
  induction h with
  | undefined undeclared =>
    cases ho
    exact ⟨undeclared, Or.inl (by simp [Validator.mentions])⟩
  | @chosenError caller _ _ alternatives i v e declared hi _ _ ih _ =>
    cases ho
    obtain ⟨undeclared, found⟩ := ih rfl
    refine ⟨undeclared, Or.inr ?_⟩
    rcases found with found | called
    · exact ⟨caller, alternatives, v, declared, List.mem_of_getElem? hi, found⟩
    · exact called
  | sequenceBroken item _ _ _ ih =>
    obtain ⟨undeclared, found⟩ := ih ho
    exact ⟨undeclared, found.imp_left fun found =>
      Validator.mem_mentionsAll found (List.mem_of_getElem? item)⟩
  | onceError _ ih =>
    cases ho
    exact ih rfl
  | manyError _ _ _ _ _ ih =>
    cases ho
    exact ih rfl
  | _ => cases ho

/-- The name of an undeclared rule that stops an evaluation is no declared one, and it occurs in the
validator or is one of the references. -/
theorem undeclared_of_evaluate [LawfulRegex] {depth : Nat} {v : Validator} {pos : Nat}
    {tag name : String} (h : evaluate g text depth v pos tag = .error (.undefinedRule name)) :
    name ∉ g.ruleNames ∧ (name ∈ v.mentions ∨ name ∈ g.references) := by
  have given : Gives g text v pos tag (.error (.undefinedRule name)) :=
    gives_iff.mpr ⟨by simp, depth, h⟩
  obtain ⟨undeclared, found⟩ := given.undefined_of_error rfl
  refine ⟨Grammar.notMem_ruleNames_iff.mpr undeclared, found.imp_right ?_⟩
  rintro ⟨caller, called⟩
  exact called.mem_references

end Matching

namespace Grammar

/-- The references tell all rules at which an evaluation can end for want of a declaration. Such a
rule is not declared, and it is the entry rule or a reference, or if a validator is matched, it may
occur in that too. If the entry rule and all references are declared, no text makes a parse end at
such a rule, whether all of the text is wanted or not; and no matching does, at any place, of a
validator that names declared rules only. -/
theorem references_complete [Regex] [LawfulRegex] (g : Grammar) :
    (∀ text name, g.parse text = .error (.undefinedRule name) →
      name ∉ g.ruleNames ∧ (name = g.entry ∨ name ∈ g.references)) ∧
    (∀ text depth v pos tag name,
      Matching.evaluate g text depth v pos tag = .error (.undefinedRule name) →
        name ∉ g.ruleNames ∧ (name ∈ v.mentions ∨ name ∈ g.references)) ∧
    ((∀ name ∈ g.references, name ∈ g.ruleNames) →
      (g.entry ∈ g.ruleNames → ∀ text name,
        g.parse text ≠ .error (.undefinedRule name) ∧
        g.parseComplete text ≠ .error (.undefinedRule name) ∧
        g.requireMatch text ≠ .error (.evaluation (.undefinedRule name))) ∧
      ∀ v : Validator, (∀ name ∈ v.mentions, name ∈ g.ruleNames) → ∀ text depth pos tag name,
        Matching.evaluate g text depth v pos tag ≠ .error (.undefinedRule name)) := by
  have parsed : ∀ text name, g.parse text = .error (.undefinedRule name) →
      name ∉ g.ruleNames ∧ (name = g.entry ∨ name ∈ g.references) := by
    intro text name h
    obtain ⟨undeclared, found⟩ := Matching.undeclared_of_evaluate h
    exact ⟨undeclared, found.imp_left (by simp [Validator.mentions])⟩
  refine ⟨parsed, fun text depth v pos tag name => Matching.undeclared_of_evaluate, ?_⟩
  intro declared
  constructor
  · intro entry text name
    have sound : g.parse text ≠ .error (.undefinedRule name) := by
      intro h
      obtain ⟨undeclared, rfl | found⟩ := parsed text name h
      · exact undeclared entry
      · exact undeclared (declared name found)
    exact ⟨sound, mt parseComplete_eq_error.mp sound, mt requireMatch_eq_evaluation.mp sound⟩
  · intro v named text depth pos tag name h
    obtain ⟨undeclared, found | found⟩ := Matching.undeclared_of_evaluate h
    · exact undeclared (named name found)
    · exact undeclared (declared name found)

/-- A digit, and then a rule that is not declared. -/
def unfinished : Grammar :=
  ⟨"start", [("start", [.sequence [Points.one .digitCharacter, .ref "rest"]])]⟩

/-- After a digit the undeclared rule is reached and reported. In the grammar of point lists all
references are declared: no text is reported to need more, nor is any number, and a validator that
needs more names it. -/
theorem unfinished_reported :
    (unfinished.parse (.ofString "1") = .error (.undefinedRule "rest") ∧
      "rest" ∉ unfinished.ruleNames ∧
      ("rest" = unfinished.entry ∨ "rest" ∈ unfinished.references)) ∧
    (Matching.evaluate Points.grammar #[] 1 (.ref "rest") 7 "" = .error (.undefinedRule "rest") ∧
      "rest" ∉ Points.grammar.ruleNames ∧
      ("rest" ∈ (Validator.ref "rest").mentions ∨ "rest" ∈ Points.grammar.references)) ∧
    ((∀ name ∈ Points.grammar.references, name ∈ Points.grammar.ruleNames) ∧
      Points.grammar.entry ∈ Points.grammar.ruleNames ∧
      (∀ text name,
        Points.grammar.requireMatch text ≠ .error (.evaluation (.undefinedRule name))) ∧
      (∀ name ∈ (Validator.ref "number").mentions, name ∈ Points.grammar.ruleNames) ∧
      ∀ text depth pos tag name,
        Matching.evaluate Points.grammar text depth (.ref "number") pos tag ≠
          .error (.undefinedRule name)) := by
  have stopped : unfinished.parse (.ofString "1") = .error (.undefinedRule "rest") := by cbv
  have missing : Matching.evaluate Points.grammar #[] 1 (.ref "rest") 7 "" =
      .error (.undefinedRule "rest") := by cbv
  have declared : ∀ name ∈ Points.grammar.references, name ∈ Points.grammar.ruleNames := by
    decide +kernel
  have entry : Points.grammar.entry ∈ Points.grammar.ruleNames := by decide
  have named : ∀ name ∈ (Validator.ref "number").mentions, name ∈ Points.grammar.ruleNames := by
    decide
  obtain ⟨parses, evaluations⟩ := (references_complete Points.grammar).2.2 declared
  refine ⟨⟨stopped, (references_complete unfinished).1 _ _ stopped⟩,
    ⟨missing, (references_complete Points.grammar).2.1 _ _ _ _ _ _ missing⟩, declared, entry, ?_,
    named, evaluations (.ref "number") named⟩
  intro text name
  exact (parses entry text name).2.2

end Grammar

end OrderedGrammar

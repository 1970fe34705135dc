import OrderedGrammar.Grammar.Describe
import OrderedGrammar.Proofs.Grammar.References
import OrderedGrammar.Proofs.Matching.Entry
import OrderedGrammar.Proofs.Matching.Termination
import OrderedGrammar.Proofs.Notation.Reprinting

/-!
What can be relied on in a grammar that has been read. Its validators are of the four kinds all the
way down, so it can be described, and matching never meets a validator of no kind
(`wellFormed_of_read`); it goes wrong only at a rule that is not declared (`error_of_read`).
-/

namespace OrderedGrammar

open Text Notation

section WellFormed

variable [Regex]

namespace Validator

variable {P : Validator → Prop} {v : Validator}

/-! ### Validators as the notation makes them -/

/-- What is true of all parts of a validator is true of all parts of each part. -/
theorem Everywhere.nested (h : v.Everywhere P) : v.Everywhere (Everywhere P) := by
  induction h with
  | terminal h => exact .terminal (.terminal h)
  | ref h => exact .ref (.ref h)
  | quantified h hi ih => exact .quantified (.quantified h hi) ih
  | sequence h hs ih => exact .sequence (.sequence h hs) ih
  | foreign h => exact .foreign (.foreign h)

/-- One of the four kinds. A terminal has flags of the notation and compiles under them, a name is a
name of the notation, and a sequence has two items at least. -/
def WellFormed : Validator → Prop
  | terminal t => (∀ c ∈ t.flags.toList, c ∈ ['i', 'm', 's', 'x']) ∧
      ∃ compiled, Terminal.compile t.pattern t.flags = .ok compiled
  | ref name => isName name.toList
  | quantified _ _ => True
  | sequence items => 2 ≤ items.length
  | foreign _ => False

theorem wellFormed_of_notated (h : v.Notated) : v.WellFormed := by
  cases v with
  | terminal t =>
    refine ⟨fun c hc => ?_, t.compiled, t.compile_eq⟩
    have flag := List.all_eq_true.mp h.flags c hc
    simpa [Lexer.isFlag, or_assoc] using flag
  | _ => exact h

theorem proper_of_wellFormed (h : v.Everywhere WellFormed) : v.Proper := by
  induction h with
  | terminal _ => exact .terminal
  | ref _ => exact .ref
  | quantified _ _ ih => exact .quantified ih
  | sequence _ _ ih => exact .sequence ih
  | foreign h => exact h.elim

theorem isName_of_mentions (h : v.Everywhere WellFormed) :
    ∀ name ∈ v.mentions, isName name.toList := by
  induction h with
  | ref h =>
    intro name found
    obtain rfl := List.mem_singleton.mp found
    exact h
  | quantified _ _ ih => exact ih
  | sequence _ _ ih =>
    intro name found
    obtain ⟨v, hv, found⟩ := mem_mentionsAll_iff.mp found
    exact ih v hv name found
  | _ => simp [mentions]

/-! ### Describing them -/

theorem describeAll_ok {items : List Validator}
    (h : ∀ v ∈ items, ∃ text, v.describe = .ok text) : ∃ texts, describeAll items = .ok texts := by
  induction items with
  | nil => exact ⟨[], rfl⟩
  | cons v rest ih =>
    obtain ⟨first, others⟩ := List.forall_mem_cons.mp h
    obtain ⟨text, htext⟩ := first
    obtain ⟨texts, htexts⟩ := ih others
    rw [describeAll, htext, htexts]
    exact ⟨text :: texts, rfl⟩

/-- Validators of the four kinds can be described. -/
theorem describe_ok (h : v.Proper) : ∃ text, v.describe = .ok text := by
  induction h with
  | terminal => exact ⟨_, rfl⟩
  | ref => exact ⟨_, rfl⟩
  | quantified _ ih =>
    obtain ⟨text, htext⟩ := ih
    rw [describe, htext]
    exact ⟨_, rfl⟩
  | sequence _ ih =>
    obtain ⟨texts, htexts⟩ := describeAll_ok ih
    rw [describe, htexts]
    exact ⟨_, rfl⟩

end Validator

/-! ### Matching them -/

/-- Validators of the four kinds lead to no other validator. -/
theorem Matching.evaluate_ne_unknown [LawfulRegex] {g : Grammar} {text : Text} {depth pos : Nat}
    {v : Validator} {tag : String} {x : Foreign} (hg : g.Proper) (hv : v.Proper) :
    evaluate g text depth v pos tag ≠ .error (.unknownValidator x) := by
  intro h
  have given : Gives g text v pos tag (.error (.unknownValidator x)) :=
    gives_iff.mpr ⟨by simp, depth, h⟩
  obtain ⟨_, undeclared, -⟩ := given.error_of_proper hg hv _ rfl
  cases undeclared

namespace Grammar

open Validator

variable {src : String} {g : Grammar}

theorem notated_wellFormed (h : read src = .ok g) : g.Notated WellFormed :=
  (notated_of_read h).imp fun _ => wellFormed_of_notated

theorem proper_of_read (h : read src = .ok g) : g.Proper := by
  intro name alternatives hr v hv
  have rule := mem_rules_of_rule? hr
  exact proper_of_wellFormed ((notated_wellFormed h).validators _ rule v hv)

/-- Parsing under a grammar that has been read goes wrong only at a rule that is not declared. -/
theorem error_of_read [LawfulRegex] {text : Text} {e : EvalError} (h : read src = .ok g)
    (ends : g.parse text ≠ .error .depthExceeded) (failed : g.parse text = .error e) :
    ∃ name, e = .undefinedRule name := by
  have given : Matching.Gives g text (.ref g.entry) 0 g.entry (g.parse text) :=
    Matching.gives_iff.mpr ⟨ends, Matching.depthLimit, rfl⟩
  obtain ⟨name, he, -⟩ := given.error_of_proper (proper_of_read h) .ref e failed
  exact ⟨name, he⟩

theorem describe_ok (h : read src = .ok g) : ∃ rules, g.describe = .ok rules := by
  have validators := (notated_wellFormed h).validators
  unfold Grammar.describe
  generalize g.rules = rules at validators ⊢
  induction rules with
  | nil => exact ⟨[], rfl⟩
  | cons rule rest ih =>
    obtain ⟨first, others⟩ := List.forall_mem_cons.mp validators
    obtain ⟨texts, htexts⟩ := describeAll_ok fun v hv =>
      Validator.describe_ok (proper_of_wellFormed (first v hv))
    obtain ⟨described, hdescribed⟩ := ih others
    rw [List.mapM_cons, htexts, hdescribed]
    exact ⟨(rule.1, texts) :: described, rfl⟩

/-- A grammar that has been read is well formed. It has a rule, each rule has an alternative, all
names are names of the notation, those referred to included, and every part of an alternative is
well formed. So every part can be described and the grammar too, and no matching of a part or a
rule, at any place of any text and however deep, meets a validator of no kind; nor do the three ways
to match a whole text. -/
theorem wellFormed_of_read [LawfulRegex] (h : read src = .ok g) :
    g.Notated WellFormed ∧
    (∀ name ∈ g.references, isName name.toList) ∧
    (∃ rules, g.describe = .ok rules) ∧
    (∀ rule ∈ g.rules, ∀ v ∈ rule.2, v.Everywhere fun w =>
      (∃ shown, w.describe = .ok shown) ∧ ∀ text depth pos tag x,
        Matching.evaluate g text depth w pos tag ≠ .error (.unknownValidator x)) ∧
    (∀ name text depth pos tag x,
      Matching.evaluate g text depth (.ref name) pos tag ≠ .error (.unknownValidator x)) ∧
    ∀ text x, g.parse text ≠ .error (.unknownValidator x) ∧
      g.parseComplete text ≠ .error (.unknownValidator x) ∧
      g.requireMatch text ≠ .error (.evaluation (.unknownValidator x)) := by
  have formed := notated_wellFormed h
  have proper := proper_of_read h
  have rules (name : String) (text : Text) (depth pos : Nat) (tag : String) (x : Foreign) :
      Matching.evaluate g text depth (.ref name) pos tag ≠ .error (.unknownValidator x) :=
    Matching.evaluate_ne_unknown proper .ref
  refine ⟨formed, ?names, describe_ok h, ?parts, rules, ?parses⟩
  case names =>
    intro name found
    obtain ⟨rule, hrule, v, hv, found⟩ := mem_references.mp found
    exact isName_of_mentions (formed.validators rule hrule v hv) name found
  case parts =>
    refine fun rule hrule v hv => (formed.validators rule hrule v hv).nested.imp fun w hw => ?_
    have kind := proper_of_wellFormed hw
    exact ⟨Validator.describe_ok kind, fun _ _ _ _ _ => Matching.evaluate_ne_unknown proper kind⟩
  case parses =>
    intro text x
    have parse : g.parse text ≠ .error (.unknownValidator x) := rules _ _ _ _ _ _
    exact ⟨parse, mt parseComplete_eq_error.mp parse, mt requireMatch_eq_evaluation.mp parse⟩

end Grammar

end WellFormed

namespace Grammar

open Validator

theorem commaList_wellFormed :
    read "%entry list ;\nlist : item (/,/ item)* ;\nitem : /[0-9]/+ ;" = .ok commaList ∧
    commaList.Notated WellFormed ∧
    (∀ name ∈ commaList.references, isName name.toList) ∧
    (∃ rules, commaList.describe = .ok rules) ∧
    ∀ text x, commaList.parse text ≠ .error (.unknownValidator x) := by
  obtain ⟨formed, names, described, -, -, parses⟩ := wellFormed_of_read read_commaList
  exact ⟨read_commaList, formed, names, described, fun text x => (parses text x).1⟩

end Grammar

end OrderedGrammar

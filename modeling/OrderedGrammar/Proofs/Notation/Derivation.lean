import OrderedGrammar.Notation.Reader
import OrderedGrammar.Proofs.Notation.Spelling

/-!
The notation of grammars as derivations. Each relation tells a text, what the derived part of it
stands for, and what is left of it. A gap may stand before every token, but not between a primary
and its suffix.
-/

namespace OrderedGrammar.Notation

variable [Regex]

/-! ### Items -/

mutual

/-- A name, a regex or a literal that compiles, or items in parentheses. -/
inductive Primary : List Char → Validator → List Char → Prop
  | ref {s w r} (h : Begins s (.name w) r) : Primary s (.ref (String.ofList w)) r
  | regex {s pattern flags r t} (h : Begins s (.regex pattern flags) r)
    (ht : Terminal.make (String.ofList pattern) (String.ofList flags) = .ok t) :
    Primary s (.terminal t) r
  | literal {s text r t} (h : Begins s (.literal text) r)
    (ht : Terminal.literal (String.ofList text) = .ok t) : Primary s (.terminal t) r
  | group {s vs r r'} (h : Items s vs r) (hne : vs ≠ []) (close : Gap r (')' :: r')) :
    Primary ('(' :: s) (ofItems vs) r'

/-- A primary, and directly after it a suffix or none. -/
inductive Item : List Char → Validator → List Char → Prop
  | bare {s v r} (h : Primary s v r) : Item s v r
  | suffixed {s v r} {arity : Arity} (h : Primary s v (arity.sign :: r)) :
    Item s (.quantified v arity) r

/-- Any number of items. -/
inductive Items : List Char → List Validator → List Char → Prop
  | nil {s} : Items s [] s
  | cons {s s' v r vs r'} (g : Gap s s') (h : Item s' v r) (hs : Items r vs r') :
    Items s (v :: vs) r'

end

/-! ### Rules and directives -/

/-- Alternatives of one or more items with bars between them, and the semicolon. -/
inductive Alternatives : List Char → List Validator → List Char → Prop
  | last {s vs r r'} (h : Items s vs r) (hne : vs ≠ []) (stop : Gap r (';' :: r')) :
    Alternatives s [ofItems vs] r'
  | more {s vs r r' alts r''} (h : Items s vs r) (hne : vs ≠ []) (bar : Gap r ('|' :: r'))
    (hs : Alternatives r' alts r'') : Alternatives s (ofItems vs :: alts) r''

/-- A rule with its alternatives, or a directive with the name of the entry. -/
inductive Declaration
  | rule (name : String) (alternatives : List Validator)
  | entry (name : String)

/-- The name of a rule and the colon. -/
inductive Head : List Char → String → List Char → Prop
  | mk {s s' w r b} (gap : Gap s s') (name : Begins s' (.name w) r) (colon : Gap r (':' :: b)) :
    Head s (String.ofList w) b

/-- The directive that gives the name of the entry. -/
inductive Directive : List Char → String → List Char → Prop
  | mk {s k k' word r n w q r'} (percent : Gap s ('%' :: k)) (gap : Gap k k')
    (keyword : Begins k' (.name word) r) (known : String.ofList word = "entry")
    (gap' : Gap r n) (name : Begins n (.name w) q) (stop : Gap q (';' :: r')) :
    Directive s (String.ofList w) r'

/-- A text that is nothing but declarations. -/
inductive Document : List Char → List Declaration → Prop
  | done {s} (h : Gap s []) : Document s []
  | rule {s name b alts r ds} (h : Head s name b) (body : Alternatives b alts r)
    (hs : Document r ds) : Document s (.rule name alts :: ds)
  | entry {s name r ds} (h : Directive s name r) (hs : Document r ds) :
    Document s (.entry name :: ds)

/-! ### What declarations stand for -/

/-- The rules that are declared, in order. -/
def rulesOf (ds : List Declaration) : List (String × List Validator) :=
  ds.filterMap fun
    | .rule name alternatives => some (name, alternatives)
    | .entry _ => none

/-- The names that directives give. -/
def entriesOf (ds : List Declaration) : List String :=
  ds.filterMap fun
    | .rule _ _ => none
    | .entry name => some name

/-- The names of rules are distinct, and there is at most one directive. -/
structure Admissible (ds : List Declaration) : Prop where
  distinct : ((rulesOf ds).map (·.1)).Nodup
  directives : (entriesOf ds).length ≤ 1

/-- The grammar of the declared rules, of which there is one at least, entered where the directive
says or else at the first rule. -/
structure Denotes (ds : List Declaration) (g : Grammar) : Prop extends Admissible ds where
  declared : rulesOf ds ≠ []
  rules : g.rules = rulesOf ds
  entry : some g.entry = ((entriesOf ds).head? <|> (rulesOf ds).head?.map (·.1))

@[simp] theorem rulesOf_nil : rulesOf [] = [] := rfl

@[simp] theorem entriesOf_nil : entriesOf [] = [] := rfl

@[simp] theorem rulesOf_rule (name : String) (alternatives : List Validator) :
    rulesOf [.rule name alternatives] = [(name, alternatives)] := rfl

@[simp] theorem rulesOf_entry (name : String) : rulesOf [.entry name] = [] := rfl

@[simp] theorem entriesOf_rule (name : String) (alternatives : List Validator) :
    entriesOf [.rule name alternatives] = [] := rfl

@[simp] theorem entriesOf_entry (name : String) : entriesOf [.entry name] = [name] := rfl

theorem rulesOf_append (ds es : List Declaration) : rulesOf (ds ++ es) = rulesOf ds ++ rulesOf es :=
  List.filterMap_append

theorem entriesOf_append (ds es : List Declaration) :
    entriesOf (ds ++ es) = entriesOf ds ++ entriesOf es :=
  List.filterMap_append

theorem rulesOf_map_rule (rules : List (String × List Validator)) :
    rulesOf (rules.map fun rule => .rule rule.1 rule.2) = rules := by
  induction rules with
  | nil => rfl
  | cons rule rest ih => exact congrArg (rule :: ·) ih

theorem entriesOf_map_rule (rules : List (String × List Validator)) :
    entriesOf (rules.map fun rule => .rule rule.1 rule.2) = [] := by
  induction rules with
  | nil => rfl
  | cons rule rest ih => exact ih

/-- A directive and rules with distinct names denote the grammar of these rules. -/
theorem denotes_of_rules {g : Grammar} (declared : g.rules ≠ []) (distinct : g.ruleNames.Nodup) :
    Denotes (.entry g.entry :: g.rules.map fun rule => .rule rule.1 rule.2) g := by
  have rules : rulesOf (.entry g.entry :: g.rules.map fun rule => .rule rule.1 rule.2) = g.rules :=
    rulesOf_map_rule g.rules
  have entries : entriesOf (.entry g.entry :: g.rules.map fun rule => .rule rule.1 rule.2) =
      [g.entry] := congrArg (g.entry :: ·) (entriesOf_map_rule g.rules)
  refine ⟨⟨by rw [rules]; exact distinct, by rw [entries]; exact Nat.le_refl 1⟩, ?_, rules.symm, ?_⟩
  · rw [rules]
    exact declared
  · rw [entries]
    rfl

theorem admissible_nil : Admissible [] := ⟨List.nodup_nil, Nat.zero_le _⟩

/-- What comes before admissible declarations ends is admissible. -/
theorem Admissible.before {ds es : List Declaration} (h : Admissible (ds ++ es)) :
    Admissible ds := by
  obtain ⟨distinct, directives⟩ := h
  rw [rulesOf_append, List.map_append] at distinct
  rw [entriesOf_append, List.length_append] at directives
  exact ⟨distinct.of_append_left, Nat.le_trans (Nat.le_add_right _ _) directives⟩

/-- A rule may be declared exactly if there is none of its name. -/
theorem admissible_rule {ds : List Declaration} {name : String} {alternatives : List Validator}
    (h : Admissible ds) :
    Admissible (ds ++ [.rule name alternatives]) ↔ (rulesOf ds).lookup name = none := by
  have names : ((rulesOf (ds ++ [.rule name alternatives])).map (·.1)) =
      (rulesOf ds).map (·.1) ++ [name] := by
    simp [rulesOf_append]
  have entries : entriesOf (ds ++ [.rule name alternatives]) = entriesOf ds := by
    simp [entriesOf_append]
  rw [List.lookup_eq_none_iff]
  constructor
  · rintro ⟨distinct, -⟩ rule hrule
    rw [names, List.nodup_append] at distinct
    exact bne_iff_ne.mpr
      (distinct.2.2 rule.1 (List.mem_map_of_mem hrule) name List.mem_cons_self).symm
  · intro new
    refine ⟨?_, entries ▸ h.directives⟩
    rw [names, List.nodup_append]
    refine ⟨h.distinct, List.nodup_singleton _, ?_⟩
    rintro declared hdeclared _ hname rfl
    obtain ⟨rule, hrule, rfl⟩ := List.mem_map.mp hdeclared
    exact bne_iff_ne.mp (new rule hrule) (List.mem_singleton.mp hname).symm

/-- A directive may be given exactly if none has been. -/
theorem admissible_entry {ds : List Declaration} {name : String} (h : Admissible ds) :
    Admissible (ds ++ [.entry name]) ↔ entriesOf ds = [] := by
  have rules : rulesOf (ds ++ [.entry name]) = rulesOf ds := by simp [rulesOf_append]
  have entries : (entriesOf (ds ++ [.entry name])).length = (entriesOf ds).length + 1 := by
    simp [entriesOf_append]
  rw [← List.length_eq_zero_iff]
  constructor
  · rintro ⟨-, directives⟩
    omega
  · intro none
    exact ⟨rules ▸ h.distinct, by omega⟩

/-! ### Lengths -/

mutual

theorem Primary.length_lt {s r : List Char} {v : Validator} :
    Primary s v r → r.length < s.length
  | .ref h => h.length_lt
  | .regex h _ => h.length_lt
  | .literal h _ => h.length_lt
  | .group h _ close => by
    have inner := h.length_le
    have outer := close.length_le
    simp only [List.length_cons] at outer ⊢
    omega

theorem Item.length_lt {s r : List Char} {v : Validator} : Item s v r → r.length < s.length
  | .bare h => h.length_lt
  | .suffixed h => Nat.lt_of_succ_lt h.length_lt

theorem Items.length_le {s r : List Char} {vs : List Validator} :
    Items s vs r → r.length ≤ s.length
  | .nil => Nat.le_refl _
  | .cons g h hs => by
    have gap := g.length_le
    have first := h.length_lt
    have others := hs.length_le
    omega

end

theorem Alternatives.length_lt {s r : List Char} {alts : List Validator}
    (h : Alternatives s alts r) : r.length < s.length := by
  induction h with
  | last h _ stop =>
    have items := h.length_le
    have gap := stop.length_le
    simp only [List.length_cons] at gap
    omega
  | more h _ bar _ ih =>
    have items := h.length_le
    have gap := bar.length_le
    simp only [List.length_cons] at gap
    omega

omit [Regex] in
theorem Head.length_lt {s r : List Char} {name : String} (h : Head s name r) :
    r.length < s.length := by
  obtain ⟨gap, name, colon⟩ := h
  have h₁ := gap.length_le
  have h₂ := name.length_lt
  have h₃ := colon.length_le
  simp only [List.length_cons] at h₃
  omega

omit [Regex] in
theorem Directive.length_lt {s r : List Char} {name : String} (h : Directive s name r) :
    r.length < s.length := by
  obtain ⟨percent, gap, keyword, -, gap', name, stop⟩ := h
  have h₁ := percent.length_le
  have h₂ := gap.length_le
  have h₃ := keyword.length_lt
  have h₄ := gap'.length_le
  have h₅ := name.length_lt
  have h₆ := stop.length_le
  simp only [List.length_cons] at h₁ h₆
  omega

end OrderedGrammar.Notation

import OrderedGrammar.Grammar.Describe
import OrderedGrammar.Points.Grammar
import OrderedGrammar.Proofs.Notation.Reading
import OrderedGrammar.Proofs.Notation.Shape
import OrderedGrammar.Proofs.Pattern.Lawful

/-!
Grammars written down as sources and read again. The text of a validator is derived to its parts in
line, whatever comes after it, if only that does not go on with a name (`derived`); the source of a
grammar is therefore read as the grammar with nested sequences laid out in line
(`read_source_flatten`), and as the grammar itself if it has none.
-/

namespace OrderedGrammar

open Text Notation Lexer

namespace Notation

/-! ### Gaps -/

/-- What begins with a token opens no gap. -/
theorem Begins.gap {s r : List Char} {l : Lexeme} (h : Begins s l r) : Gap s s := by
  have other {c : Char} {s : List Char} (blank : isGap c = false) (hash : c ≠ '#')
      (slash : c ≠ '/') : Gap (c :: s) (c :: s) :=
    .done (by simp [opensGap, blank, hash, slash])
  cases h with
  | @name w r hw hr =>
    cases w with
    | nil => simp [isName] at hw
    | cons c w =>
      obtain ⟨hc, -⟩ := by simpa only [isName, Bool.and_eq_true] using hw
      obtain ⟨hg, hh, hs, -⟩ := opensName_only hc
      exact other hg hh hs
  | @regex pattern flags r hp opens hf hr =>
    cases hp with
    | nil => exact absurd rfl opens.1
    | @plain c s hc _ =>
      have star : c ≠ '*' := by simpa using opens.2
      exact .done (by simp [opensGap, hc.2.1, star, isGap])
    | escaped _ => exact .done rfl
  | literal hq hs hne => rcases hq with rfl | rfl <;> exact other rfl (by decide) (by decide)
  | mark hc =>
    simp only [isMark, Bool.not_eq_true', Bool.or_eq_false_iff, beq_eq_false_iff_ne] at hc
    exact other hc.1.1.1.1.1 hc.1.1.1.1.2 hc.1.1.1.2

theorem endsRun_blank (r : List Char) : EndsRun continuesName (' ' :: r) := by
  rintro _ ⟨⟩
  rfl

theorem gap_blank {s r : List Char} (h : Gap s r) : Gap (' ' :: s) r := .more (.blank rfl) h

theorem gap_blanks {blanks s r : List Char} (hb : blanks.all isGap) (h : Gap s r) :
    Gap (blanks ++ s) r := by
  induction blanks with
  | nil => exact h
  | cons c blanks ih =>
    obtain ⟨hc, hb⟩ := by simpa only [List.all_cons, Bool.and_eq_true] using hb
    exact .more (.blank hc) (ih hb)

/-! ### Putting derivations together -/

variable [Regex]

theorem Items.append {s m r : List Char} {vs ws : List Validator} (h : Items s vs m)
    (h' : Items m ws r) : Items s (vs ++ ws) r := by
  match h with
  | .nil => exact h'
  | .cons g h hs => exact .cons g h (hs.append h')

theorem Items.blank {c : Char} {s r : List Char} {vs : List Validator} (hc : isGap c)
    (h : Items s vs r) (hne : vs ≠ []) : Items (c :: s) vs r := by
  match h with
  | .nil => exact absurd rfl hne
  | .cons g h hs => exact .cons (.more (.blank hc) g) h hs

theorem Items.single {s r : List Char} {v : Validator} (g : Gap s s) (h : Item s v r) :
    Items s [v] r := .cons g h .nil

end Notation

namespace Validator

variable [Regex]

/-- A single item that is not quantified is a primary behind a gap. -/
theorem exists_primary {s r : List Char} {v : Validator} (h : Items s [v] r)
    (hv : ∀ w arity, v ≠ quantified w arity) : ∃ s', Gap s s' ∧ Primary s' v r := by
  match h with
  | .cons g (.bare h) .nil => exact ⟨_, g, h⟩
  | .cons g (.suffixed h) .nil => exact absurd rfl (hv _ _)

theorem flatten_ne_quantified {v : Validator} (h : ∀ w arity, v ≠ quantified w arity) :
    ∀ w arity, v.flatten ≠ quantified w arity := by
  cases v with
  | quantified inner arity => exact absurd rfl (h _ _)
  | _ => simp [flatten]

/-- The parts of a validator stand for it in line. -/
theorem ofItems_parts {v : Validator} (h : v.Everywhere Printable) :
    ofItems v.parts = v.flatten := by
  cases h with
  | @sequence items several hs =>
    have two : 2 ≤ (partsAll items).length := Nat.le_trans several (length_le_partsAll hs)
    rw [parts, flatten]
    match partsAll items, two with
    | _ :: _ :: _, _ => rfl
  | _ => rfl

/-- The text of a validator is derived to its parts. -/
def Derived (v : Validator) : Prop :=
  ∃ text, v.describe = .ok text ∧
    ∀ r, EndsRun continuesName r → Items (text.toList ++ r) v.parts r

theorem derived_terminal {t : Terminal} (h : t.Fits RegexText) : Derived (terminal t) := by
  refine ⟨_, rfl, fun r hr => ?_⟩
  have flags : EndsRun isFlag r := by
    intro c hc
    by_contra flag
    have letter : continuesName c = true := by
      simp only [isFlag, Bool.not_eq_false, Bool.or_eq_true, beq_iff_eq] at flag
      rcases flag with ((rfl | rfl) | rfl) | rfl <;> rfl
    rw [hr c hc] at letter
    cases letter
  have token : Begins ('/' :: (t.pattern.toList ++ '/' :: (t.flags.toList ++ r)))
      (.regex t.pattern.toList t.flags.toList) r := .regex h.pattern h.opens h.flags flags
  have made : Terminal.make (String.ofList t.pattern.toList) (String.ofList t.flags.toList) =
      .ok t := by
    rw [String.ofList_toList, String.ofList_toList]
    exact Terminal.make_eq_ok.mpr ⟨rfl, rfl⟩
  have spelled : ("/" ++ t.pattern ++ "/" ++ t.flags).toList ++ r =
      '/' :: (t.pattern.toList ++ '/' :: (t.flags.toList ++ r)) := by
    simp [String.toList_append]
  rw [spelled]
  exact .single token.gap (.bare (.regex token made))

theorem derived_ref {name : String} (h : isName name.toList) : Derived (ref name) := by
  refine ⟨name, rfl, fun r hr => ?_⟩
  have token : Begins (name.toList ++ r) (.name name.toList) r := .name h hr
  have item := Item.bare (.ref token)
  rw [String.ofList_toList] at item
  exact .single token.gap item

/-- Every validator has its text. -/
theorem describeAll_length {items : List Validator} {texts : List String}
    (h : describeAll items = .ok texts) : texts.length = items.length := by
  induction items generalizing texts with
  | nil => cases h; rfl
  | cons v rest ih =>
    rw [describeAll] at h
    obtain ⟨text, -, h⟩ := bind_eq_ok.mp h
    obtain ⟨texts, hr, h⟩ := bind_eq_ok.mp h
    cases h
    exact congrArg (· + 1) (ih hr)

/-- Texts with blanks between them are derived to the parts of all. -/
theorem derived_all {items : List Validator} (h : ∀ v ∈ items, v.Everywhere Printable)
    (hd : ∀ v ∈ items, Derived v) :
    ∃ texts, describeAll items = .ok texts ∧ ∀ r, EndsRun continuesName r →
      Items ((" ".intercalate texts).toList ++ r) (partsAll items) r := by
  induction items with
  | nil => exact ⟨[], rfl, fun r _ => .nil⟩
  | cons v rest ih =>
    obtain ⟨text, htext, first⟩ := hd v List.mem_cons_self
    obtain ⟨texts, htexts, others⟩ := ih (fun w hw => h w (List.mem_cons_of_mem _ hw))
      (fun w hw => hd w (List.mem_cons_of_mem _ hw))
    refine ⟨text :: texts, by rw [describeAll, htext, htexts]; rfl, fun r hr => ?_⟩
    cases texts with
    | nil =>
      rw [String.intercalate_singleton]
      exact (first r hr).append (by simpa using others r hr)
    | cons next texts =>
      have hne : partsAll rest ≠ [] := by
        cases rest with
        | nil => cases htexts
        | cons w rest =>
          exact List.append_ne_nil_of_left_ne_nil
            (parts_ne_nil (h w (List.mem_cons_of_mem _ List.mem_cons_self))) _
      rw [String.intercalate_cons_cons]
      simp only [String.toList_append, List.append_assoc]
      refine (first _ ?_).append ((others r hr).blank rfl hne)
      rintro _ ⟨⟩
      rfl

/-- Under a quantifier a validator is written as a primary. -/
theorem derived_primary {inner : Validator} (once : ∀ v arity, inner ≠ quantified v arity)
    (hi : inner.Everywhere Printable) (h : Derived inner) :
    ∃ body, inner.describe.map (fun text =>
        if inner.needsParentheses then "(" ++ text ++ ")" else text) = .ok body ∧
      ∀ r, EndsRun continuesName r → ∃ s, Gap (body.toList ++ r) s ∧ Primary s inner.flatten r := by
  obtain ⟨text, htext, items⟩ := h
  have closing (r : List Char) : EndsRun continuesName (')' :: r) := by
    rintro _ ⟨⟩
    rfl
  rw [htext]
  refine ⟨_, rfl, fun r hr => ?_⟩
  cases inner with
  | sequence vs =>
    match vs, hi.here with
    | v :: w :: rest, _ =>
      have spelled : ("(" ++ text ++ ")").toList ++ r = '(' :: (text.toList ++ ')' :: r) := by
        simp [String.toList_append]
      refine ⟨'(' :: (text.toList ++ ')' :: r), ?_, ?_⟩
      · change Gap (("(" ++ text ++ ")").toList ++ r) _
        rw [spelled]
        exact .done rfl
      · rw [← ofItems_parts hi]
        exact .group (items _ (closing r)) (parts_ne_nil hi) (.done rfl)
  | _ => exact exists_primary (items r hr) (flatten_ne_quantified once)

theorem derived_quantified {inner : Validator} {arity : Arity}
    (once : ∀ v a, inner ≠ quantified v a) (hi : inner.Everywhere Printable)
    (h : Derived inner) : Derived (quantified inner arity) := by
  obtain ⟨body, hbody, primary⟩ := derived_primary once hi h
  refine ⟨body.push arity.sign, ?_, fun r hr => ?_⟩
  · rw [describe]
    cases hd : inner.describe with
    | error e => rw [hd] at hbody; cases hbody
    | ok text =>
      rw [hd] at hbody
      cases hbody
      rfl
  · have sign : EndsRun continuesName (arity.sign :: r) := by
      rintro _ ⟨⟩
      cases arity <;> rfl
    obtain ⟨s, gap, primary⟩ := primary _ sign
    rw [String.toList_push, List.append_assoc, List.singleton_append]
    exact .cons gap (.suffixed primary) .nil

theorem derived (v : Validator) (h : v.Everywhere Printable) : Derived v := by
  induction h with
  | terminal h => exact derived_terminal h
  | ref h => exact derived_ref h
  | @quantified inner arity once hi ih => exact derived_quantified once hi ih
  | @sequence items several hs ih =>
    obtain ⟨texts, htexts, parts⟩ := derived_all hs ih
    exact ⟨_, by rw [describe, htexts]; rfl, parts⟩
  | foreign h => exact absurd h id

end Validator

namespace Grammar

open Validator

/-! ### Sources -/

section Sources

variable [Regex]

/-- A rule as it is written in a source. -/
def ruleSource (name : String) (alternatives : List String) : String :=
  name ++ " : " ++ " | ".intercalate alternatives ++ " ;"

/-- The grammar as a source: the directive, and then the rules in order with a gap before each. -/
def source (gap : String) (g : Grammar) : Except UnknownValidator String :=
  g.describe.map fun rules => "%entry " ++ g.entry ++ " ;" ++
    String.join (rules.map fun rule => gap ++ ruleSource rule.1 rule.2)

/-- Texts with bars between them are derived to the alternatives in line. -/
theorem derived_alternatives {alternatives : List Validator} (hne : alternatives ≠ [])
    (h : ∀ v ∈ alternatives, v.Everywhere Printable) :
    ∃ texts, describeAll alternatives = .ok texts ∧ ∀ r,
      Alternatives (' ' :: ((" | ".intercalate texts).toList ++ ' ' :: ';' :: r))
        (alternatives.map Validator.flatten) r := by
  induction alternatives with
  | nil => exact absurd rfl hne
  | cons v rest ih =>
    have hv := h v List.mem_cons_self
    obtain ⟨text, htext, items⟩ := derived v hv
    have first (r : List Char) : Items (' ' :: (text.toList ++ ' ' :: r)) v.parts (' ' :: r) :=
      (items _ (endsRun_blank r)).blank rfl (parts_ne_nil hv)
    rw [List.map_cons, ← ofItems_parts hv]
    cases rest with
    | nil =>
      refine ⟨[text], by rw [describeAll, htext]; rfl, fun r => ?_⟩
      rw [String.intercalate_singleton]
      exact .last (first _) (parts_ne_nil hv) (gap_blank (.done rfl))
    | cons w rest =>
      obtain ⟨texts, htexts, others⟩ := ih (by simp) fun x hx => h x (List.mem_cons_of_mem _ hx)
      refine ⟨text :: texts, by rw [describeAll, htext, htexts]; rfl, fun r => ?_⟩
      obtain ⟨next, texts, rfl⟩ := List.exists_cons_of_length_eq_add_one
        (describeAll_length htexts)
      rw [String.intercalate_cons_cons]
      simp only [String.toList_append, List.append_assoc]
      exact .more (first _) (parts_ne_nil hv) (gap_blank (.done rfl)) (others r)

omit [Regex] in
theorem head_ruleSource {blanks : List Char} {name : String} (hb : blanks.all isGap)
    (hn : isName name.toList) (r : List Char) :
    Head (blanks ++ (name.toList ++ ' ' :: ':' :: r)) name r := by
  have token : Begins (name.toList ++ ' ' :: ':' :: r) (.name name.toList) (' ' :: ':' :: r) :=
    .name hn (endsRun_blank _)
  have head := Head.mk (gap_blanks hb token.gap) token (gap_blank (.done rfl))
  rwa [String.ofList_toList] at head

/-- The sources of rules are derived to their declarations, with the alternatives in line. -/
theorem derived_rules {gap : String} (hgap : gap.toList.all isGap)
    {rules : List (String × List Validator)} (names : ∀ rule ∈ rules, isName rule.1.toList)
    (alternatives : ∀ rule ∈ rules, rule.2 ≠ [])
    (validators : ∀ rule ∈ rules, ∀ v ∈ rule.2, v.Everywhere Printable) :
    ∃ described, rules.mapM (fun rule => do return (rule.1, ← describeAll rule.2)) = .ok described ∧
      Document (String.join (described.map fun rule => gap ++ ruleSource rule.1 rule.2)).toList
        (rules.map fun rule => .rule rule.1 (rule.2.map Validator.flatten)) := by
  induction rules with
  | nil => exact ⟨[], rfl, .done (.done rfl)⟩
  | cons rule rest ih =>
    obtain ⟨described, hdescribed, doc⟩ := ih (fun r hr => names r (List.mem_cons_of_mem _ hr))
      (fun r hr => alternatives r (List.mem_cons_of_mem _ hr))
      (fun r hr => validators r (List.mem_cons_of_mem _ hr))
    obtain ⟨texts, htexts, body⟩ := derived_alternatives (alternatives rule List.mem_cons_self)
      (validators rule List.mem_cons_self)
    refine ⟨(rule.1, texts) :: described, ?_, ?_⟩
    · rw [List.mapM_cons, hdescribed, htexts]
      rfl
    · have head := head_ruleSource hgap (names rule List.mem_cons_self)
      have whole := Document.rule (head _) (body _) doc
      simpa [ruleSource, String.toList_append, String.join_cons] using whole

omit [Regex] in
theorem directive_source {name : String} (hn : isName name.toList) (r : List Char) :
    Directive ("%entry ".toList ++ (name.toList ++ ' ' :: ';' :: r)) name r := by
  have token : Begins (name.toList ++ ' ' :: ';' :: r) (.name name.toList) (' ' :: ';' :: r) :=
    .name hn (endsRun_blank _)
  have keyword : Begins ("entry".toList ++ ' ' :: (name.toList ++ ' ' :: ';' :: r))
      (.name "entry".toList) (' ' :: (name.toList ++ ' ' :: ';' :: r)) :=
    .name (by simp [isName]; decide) (endsRun_blank _)
  have directive := Directive.mk (.done rfl) keyword.gap keyword (String.ofList_toList)
    (gap_blank token.gap) token (gap_blank (.done rfl))
  rw [String.ofList_toList] at directive
  exact directive

/-- The source of a grammar is read as the grammar in line. -/
theorem read_source_flatten {g : Grammar} (h : g.Notated Printable) {gap : String}
    (hgap : gap.toList.all isGap) : ∃ src, g.source gap = .ok src ∧ read src = .ok g.flatten := by
  obtain ⟨described, hdescribed, doc⟩ := derived_rules hgap h.names h.alternatives h.validators
  refine ⟨_, by rw [source, describe, hdescribed]; rfl, ?_⟩
  have rules : g.rules.map (fun rule => .rule rule.1 (rule.2.map Validator.flatten)) =
      g.flatten.rules.map fun rule => Declaration.rule rule.1 rule.2 := by
    rw [flatten, List.map_map]
    rfl
  have names : g.flatten.ruleNames = g.ruleNames := by
    rw [ruleNames, flatten, List.map_map]
    rfl
  rw [rules] at doc
  have whole := Document.entry (directive_source h.entry _) doc
  have denotes : Denotes (.entry g.entry :: g.flatten.rules.map fun rule => .rule rule.1 rule.2)
      g.flatten :=
    denotes_of_rules (by simpa [flatten] using h.declared) (names ▸ h.distinct)
  exact Document.read (by simpa [String.toList_append] using whole) denotes

/-- Without sequences directly in sequences nothing changes. -/
theorem flatten_of_written {P : List Char → Prop} {g : Grammar} (h : g.Notated (Written P)) :
    g.flatten = g := by
  have same : ∀ rule ∈ g.rules, (rule.1, rule.2.map Validator.flatten) = rule := fun rule hr => by
    have alternatives : rule.2.map Validator.flatten = rule.2 := by
      rw [List.map_congr_left fun v hv => Validator.flatten_of_written (h.validators rule hr v hv),
        List.map_id']
    rw [alternatives]
  rw [flatten, List.map_congr_left same, List.map_id']

/-- A grammar that can be written as it stands is read from its source as it was. -/
theorem read_source {g : Grammar} (h : g.Notated (Written RegexText)) {gap : String}
    (hgap : gap.toList.all isGap) : ∃ src, g.source gap = .ok src ∧ read src = .ok g := by
  obtain ⟨src, hsrc, hread⟩ := read_source_flatten (h.imp fun _ => printable_of_written) hgap
  rw [flatten_of_written h] at hread
  exact ⟨src, hsrc, hread⟩

/-- The pattern and the flags are these characters, which fit. -/
theorem fits_of_toList {P : List Char → Prop} {t : Terminal} (pattern flags : List Char)
    (hp : t.pattern.toList = pattern) (hf : t.flags.toList = flags)
    (opens : pattern ≠ [] ∧ pattern.head? ≠ some '*') (h : P pattern) (letters : flags.all isFlag) :
    t.Fits P := by
  subst hp hf
  exact ⟨opens, h, letters⟩

end Sources

/-- A comma and the number behind it. -/
def commaItem : Validator := .sequence [Points.one .commaSign, .ref "item"]

/-- Numbers between commas, with a group and both kinds of repetition. -/
def commaList : Grammar :=
  ⟨"list", [
    ("list", [.sequence [.ref "item", .quantified commaItem .zeroOrMore]]),
    ("item", [.quantified (Points.one .digitCharacter) .oneOrMore])]⟩

theorem commaList_notated : commaList.Notated (Written RegexText) := by
  have comma : Everywhere (Written RegexText) (Points.one .commaSign) := by
    refine .terminal (fits_of_toList [','] [] ?_ ?_ ?_ ?_ rfl)
    · simp [Points.Symbol.terminal, Points.Symbol.pattern]
    · simp [Points.Symbol.terminal]
    · decide
    · exact .plain (by decide) .nil
  have digit : Everywhere (Written RegexText) (Points.one .digitCharacter) := by
    refine .terminal (fits_of_toList ['[', '0', '-', '9', ']'] [] ?_ ?_ ?_ ?_ rfl)
    · simp [Points.Symbol.terminal, Points.Symbol.pattern]
    · simp [Points.Symbol.terminal]
    · decide
    · exact .plain (by decide) (.plain (by decide) (.plain (by decide) (.plain (by decide)
        (.plain (by decide) .nil))))
  have item : Everywhere (Written RegexText) (.ref "item") :=
    .ref (by simp [Written, isName]; decide)
  have pair : Everywhere (Written RegexText) commaItem :=
    .sequence (by simp [Written, Points.one]) (by simp [comma, item])
  have pairs : Everywhere (Written RegexText) (.quantified commaItem .zeroOrMore) :=
    .quantified (by simp [Written, commaItem]) pair
  have list : Everywhere (Written RegexText)
      (.sequence [.ref "item", .quantified commaItem .zeroOrMore]) :=
    .sequence (by simp [Written]) (by simp [pairs, item])
  have digits : Everywhere (Written RegexText)
      (.quantified (Points.one .digitCharacter) .oneOrMore) :=
    .quantified (by simp [Written, Points.one]) digit
  exact
    { entry := by simp [commaList, isName]; decide
      declared := by simp [commaList]
      distinct := by simp [commaList, ruleNames]
      names := by simp [commaList, isName]; decide
      alternatives := by simp [commaList]
      validators := by simp [commaList, list, digits] }

theorem commaList_read_back : commaList.Notated (Written RegexText) ∧ "\n".toList.all isGap ∧
    ∃ src, commaList.source "\n" = .ok src ∧ read src = .ok commaList := by
  have gap : "\n".toList.all isGap := by simp [isGap]
  exact ⟨commaList_notated, gap, read_source commaList_notated gap⟩

/-- A pattern whose last backslash stands in a comment, and so needs nothing behind it. -/
def pendingBackslash : Terminal :=
  ⟨"a#\\", "x", Points.oneOf (.single 0x61), rfl⟩

/-- One rule that is such a pattern. -/
def remark : Grammar := ⟨"e", [("e", [.terminal pendingBackslash])]⟩

theorem remark_notated : remark.Notated (Written Undelimited) := by
  have fits : pendingBackslash.Fits Undelimited := by
    refine fits_of_toList ['a', '#', '\\'] ['x'] ?_ ?_ ?_ ?_ rfl
    · simp [pendingBackslash]
    · simp [pendingBackslash]
    · decide
    · exact .plain (by decide) (.plain (by decide) .pending)
  exact
    { entry := by simp [remark, isName]; decide
      declared := by simp [remark]
      distinct := by simp [remark, ruleNames]
      names := by simp [remark, isName]; decide
      alternatives := by simp [remark]
      validators := by simpa [remark] using Everywhere.terminal fits }

/-- Between slashes a last backslash would protect the slash behind it. -/
theorem remark_not_read_back : remark.Notated (Written Undelimited) ∧ "\n".toList.all isGap ∧
    ¬ ∃ src, remark.source "\n" = .ok src ∧ read src = .ok remark := by
  refine ⟨remark_notated, by simp [isGap], ?_⟩
  rintro ⟨src, hsrc, hread⟩
  have source : remark.source "\n" = .ok "%entry e ;\ne : /a#\\/x ;" := rfl
  have refused : (read "%entry e ;\ne : /a#\\/x ;").toOption.isNone := by cbv
  cases source.symm.trans hsrc
  rw [hread] at refused
  cases refused

end Grammar

end OrderedGrammar

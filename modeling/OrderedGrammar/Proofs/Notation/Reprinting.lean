import OrderedGrammar.Matching.Entry
import OrderedGrammar.Proofs.Matching.Agreement
import OrderedGrammar.Proofs.Notation.Printing

/-!
What is read from the notation has its shape (`notated_of_read`). It can be printed and read again
if its patterns can stand between slashes and no quantifier stands directly below another one; what
is read then matches the same spans of the same texts (`spans_flatten`).
-/

namespace OrderedGrammar

open Text Notation Lexer

/-! ### What is read -/

namespace Notation

theorem Begins.isName {s w r : List Char} (h : Begins s (.name w) r) : Text.isName w := by
  cases h with
  | name hw _ => exact hw

theorem Head.isName {s r : List Char} {name : String} (h : Head s name r) :
    Text.isName name.toList := by
  obtain ⟨_, token, _⟩ := h
  rw [String.toList_ofList]
  exact token.isName

theorem Directive.isName {s r : List Char} {name : String} (h : Directive s name r) :
    Text.isName name.toList := by
  obtain ⟨_, _, _, _, _, token, _⟩ := h
  rw [String.toList_ofList]
  exact token.isName

theorem Begins.literal_ne_nil {s text r : List Char} (h : Begins s (.literal text) r) :
    text ≠ [] := by
  cases h with
  | literal _ _ hne => exact hne

variable [Regex]

/-- Regexes open no comment, and their flags are those of the notation. -/
theorem Begins.fits {s pattern flags r : List Char} {t : Terminal}
    (h : Begins s (.regex pattern flags) r)
    (ht : Terminal.make (String.ofList pattern) (String.ofList flags) = .ok t) :
    t.Fits fun _ => True := by
  obtain ⟨hp, hf⟩ := Terminal.make_eq_ok.mp ht
  cases h with
  | regex _ opens letters _ =>
    refine ⟨?_, trivial, ?_⟩
    · rw [hp, String.toList_ofList]
      exact opens
    · rw [hf, String.toList_ofList]
      exact letters

/-- An escaped text does not begin with an asterisk. -/
theorem fits_literal {text : List Char} {t : Terminal} (hne : text ≠ [])
    (ht : Terminal.literal (String.ofList text) = .ok t) : t.Fits fun _ => True := by
  obtain ⟨hp, hf⟩ := Terminal.make_eq_ok.mp ht
  have pattern : t.pattern.toList = Pattern.escape text := by
    simp [hp, Terminal.literalPattern]
  refine ⟨?_, trivial, by simp [hf]⟩
  rw [pattern]
  cases text with
  | nil => exact absurd rfl hne
  | cons c text =>
    rw [Pattern.escape, List.flatMap_cons, Pattern.escapeChar]
    split_ifs with hc
    · simp
    · have star : c ≠ '*' := by
        rintro rfl
        simp [Pattern.isSign] at hc
      simpa using star

theorem notated_ofItems {vs : List Validator} (hne : vs ≠ [])
    (h : ∀ v ∈ vs, v.Everywhere Validator.Notated) :
    (ofItems vs).Everywhere Validator.Notated := by
  refine Validator.everywhere_ofItems h fun several => ?_
  have some := List.length_pos_iff.mpr hne
  rw [Validator.Notated]
  omega

mutual

theorem Primary.notated {s r : List Char} {v : Validator} (h : Primary s v r) :
    v.Everywhere Validator.Notated := by
  match h with
  | .ref h => exact .ref (by rw [Validator.Notated, String.toList_ofList]; exact h.isName)
  | .regex h ht => exact .terminal (h.fits ht)
  | .literal h ht => exact .terminal (fits_literal h.literal_ne_nil ht)
  | .group h hne _ => exact notated_ofItems hne h.notated

theorem Item.notated {s r : List Char} {v : Validator} (h : Item s v r) :
    v.Everywhere Validator.Notated := by
  match h with
  | .bare h => exact h.notated
  | .suffixed h => exact .quantified trivial h.notated

theorem Items.notated {s r : List Char} {vs : List Validator} (h : Items s vs r) :
    ∀ v ∈ vs, v.Everywhere Validator.Notated := by
  match h with
  | .nil => simp
  | .cons _ h hs => exact List.forall_mem_cons.mpr ⟨h.notated, hs.notated⟩

end

theorem Alternatives.notated {s r : List Char} {alts : List Validator}
    (h : Alternatives s alts r) : alts ≠ [] ∧ ∀ v ∈ alts, v.Everywhere Validator.Notated := by
  induction h with
  | last h hne _ => exact ⟨by simp, by simpa using notated_ofItems hne h.notated⟩
  | more h hne _ _ ih =>
    exact ⟨by simp, List.forall_mem_cons.mpr ⟨notated_ofItems hne h.notated, ih.2⟩⟩

/-- Declared rules are in the shape of the notation. -/
theorem Document.notated_rules {s : List Char} {ds : List Declaration} (h : Document s ds) :
    ∀ rule ∈ rulesOf ds, isName rule.1.toList ∧ rule.2 ≠ [] ∧
      ∀ v ∈ rule.2, v.Everywhere Validator.Notated := by
  induction h with
  | done => simp
  | rule head body _ ih => exact List.forall_mem_cons.mpr ⟨⟨head.isName, body.notated⟩, ih⟩
  | entry _ _ ih => exact ih

theorem Document.isName_entries {s : List Char} {ds : List Declaration} (h : Document s ds) :
    ∀ name ∈ entriesOf ds, isName name.toList := by
  induction h with
  | done => simp
  | rule _ _ _ ih => exact ih
  | entry directive _ ih => exact List.forall_mem_cons.mpr ⟨directive.isName, ih⟩

/-- What is read is in the shape of the notation. -/
theorem notated_of_read {src : String} {g : Grammar} (h : read src = .ok g) :
    g.Notated Validator.Notated := by
  obtain ⟨ds, doc, denotes⟩ := document_of_read h
  have rules := doc.notated_rules
  rw [← denotes.rules] at rules
  refine
    { entry := ?_
      declared := denotes.rules ▸ denotes.declared
      distinct := by rw [Grammar.ruleNames, denotes.rules]; exact denotes.distinct
      names := fun rule hr => (rules rule hr).1
      alternatives := fun rule hr => (rules rule hr).2.1
      validators := fun rule hr => (rules rule hr).2.2 }
  have entry := denotes.entry
  cases hentries : entriesOf ds with
  | nil =>
    rw [hentries, ← denotes.rules] at entry
    cases hrules : g.rules with
    | nil => exact absurd (denotes.rules.symm.trans hrules) denotes.declared
    | cons rule rest =>
      rw [hrules] at entry
      have first : g.entry = rule.1 := Option.some.inj entry
      rw [first]
      exact (rules rule (hrules ▸ List.mem_cons_self)).1
  | cons name rest =>
    rw [hentries] at entry
    have given : g.entry = name := Option.some.inj entry
    exact doc.isName_entries _ (hentries ▸ given ▸ List.mem_cons_self)

end Notation

/-! ### What is printed again -/

namespace Grammar

open Validator

section Spans

variable [Regex]

/-- What the entry rule comes to at the start of a text within some depth: the span of the root, no
match, or an error other than running out of depth. -/
def Spans (g : Grammar) (text : Text) (x : Except EvalError (Option (Nat × Nat))) : Prop :=
  x ≠ .error .depthExceeded ∧ ∃ depth,
    (Matching.evaluate g text depth (.ref g.entry) 0 g.entry).map
      (·.map fun t => (t.start, t.stop)) = x

/-- A parse that does not run out of depth has this span. -/
theorem spans_parse {g : Grammar} {text : Text} (h : g.parse text ≠ .error .depthExceeded) :
    g.Spans text ((g.parse text).map (·.map fun t => (t.start, t.stop))) := by
  refine ⟨fun hx => h ?_, Matching.depthLimit, rfl⟩
  rcases hp : g.parse text with e | o
  · rw [hp] at hx
    exact congrArg Except.error (Except.error.inj hx)
  · rw [hp] at hx
    cases hx

variable [LawfulRegex]

/-- The root of a tree starts where the text does. -/
theorem span_evaluate {g : Grammar} {text : Text} {depth : Nat} {v : Validator} {tag : String} :
    (Matching.evaluate g text depth v 0 tag).map (·.map fun t => (t.start, t.stop)) =
      (Matching.stopOf (Matching.evaluate g text depth v 0 tag)).map
        (·.map fun stop => (0, stop)) := by
  rcases h : Matching.evaluate g text depth v 0 tag with e | _ | t
  · rfl
  · rfl
  · have start : t.start = 0 := (Matching.evaluate_bounds h).1
    simp [Matching.stopOf, Except.map, start]

theorem spans_iff {g : Grammar} {text : Text} {x : Except EvalError (Option (Nat × Nat))} :
    g.Spans text x ↔ ∃ y, Matching.Stops g text (.ref g.entry) 0 y ∧
      y.map (·.map fun stop => (0, stop)) = x := by
  simp only [Spans, span_evaluate, Matching.stops_iff g.entry]
  constructor
  · rintro ⟨hx, depth, rfl⟩
    refine ⟨_, ⟨fun hy => hx ?_, depth, rfl⟩, rfl⟩
    rw [hy]
    rfl
  · rintro ⟨_, ⟨hy, depth, rfl⟩, rfl⟩
    refine ⟨fun hx => hy ?_, depth, rfl⟩
    rcases hs : Matching.stopOf (Matching.evaluate g text depth (.ref g.entry) 0 g.entry) with e | o
    · rw [hs] at hx
      exact congrArg Except.error (Except.error.inj hx)
    · rw [hs] at hx
      cases hx

theorem Spans.unique {g : Grammar} {text : Text} {x y : Except EvalError (Option (Nat × Nat))}
    (h : g.Spans text x) (h' : g.Spans text y) : x = y := by
  obtain ⟨z, hz, rfl⟩ := spans_iff.mp h
  obtain ⟨z', hz', rfl⟩ := spans_iff.mp h'
  rw [hz.unique hz']

/-- Laid out in line, a grammar matches the same spans. -/
theorem spans_flatten (g : Grammar) (text : Text) (x : Except EvalError (Option (Nat × Nat))) :
    g.Spans text x ↔ g.flatten.Spans text x := by
  rw [spans_iff, spans_iff]
  exact exists_congr fun y => and_congr_left fun _ => Matching.stops_flatten_grammar

/-- A grammar that was read is read again from what is printed of it, and matches the same spans, if
its patterns can stand between slashes and no quantifier stands directly below another one. -/
theorem reprinted {src : String} {g : Grammar} (h : read src = .ok g)
    (reprintable : ∀ rule ∈ g.rules, ∀ v ∈ rule.2, v.Everywhere Reprintable) {gap : String}
    (hgap : gap.toList.all isGap) :
    ∃ printed g', g.source gap = .ok printed ∧ read printed = .ok g' ∧ g'.entry = g.entry ∧
      (∀ text x, g.Spans text x ↔ g'.Spans text x) ∧
      ∀ text, g.parse text ≠ .error .depthExceeded → g'.parse text ≠ .error .depthExceeded →
        (g.parse text).map (·.map fun t => (t.start, t.stop)) =
          (g'.parse text).map (·.map fun t => (t.start, t.stop)) := by
  have notated := notated_of_read h
  have validators : ∀ rule ∈ g.rules, ∀ v ∈ rule.2, v.Everywhere Printable :=
    fun rule hr v hv => ((notated.validators rule hr v hv).and (reprintable rule hr v hv)).imp
      fun _ both => printable_of_notated both.1 both.2
  have printable : g.Notated Printable := { notated with validators }
  obtain ⟨printed, hprinted, hread⟩ := read_source_flatten printable hgap
  refine ⟨printed, g.flatten, hprinted, hread, rfl, spans_flatten g, fun text hg hg' => ?_⟩
  exact ((spans_flatten g text _).mp (spans_parse hg)).unique (spans_parse hg')

end Spans

/-- Lists of digits, as they are written in a source. -/
theorem read_commaList :
    read "%entry list ;\nlist : item (/,/ item)* ;\nitem : /[0-9]/+ ;" = .ok commaList := by
  have gap : "\n".toList.all isGap := by simp [isGap]
  have source : commaList.source "\n" =
      .ok "%entry list ;\nlist : item (/,/ item)* ;\nitem : /[0-9]/+ ;" := by rfl
  obtain ⟨src, hsrc, hread⟩ :=
    read_source_flatten (commaList_notated.imp fun _ => printable_of_written) gap
  cases source.symm.trans hsrc
  rwa [flatten_of_written commaList_notated] at hread

theorem commaList_reprinted :
    read "%entry list ;\nlist : item (/,/ item)* ;\nitem : /[0-9]/+ ;" = .ok commaList ∧
      (∀ rule ∈ commaList.rules, ∀ v ∈ rule.2, v.Everywhere Reprintable) ∧
      "\n".toList.all isGap ∧
      ∃ printed g', commaList.source "\n" = .ok printed ∧ read printed = .ok g' ∧
        g'.entry = commaList.entry ∧ (∀ text x, commaList.Spans text x ↔ g'.Spans text x) ∧
        ∀ text, commaList.parse text ≠ .error .depthExceeded →
          g'.parse text ≠ .error .depthExceeded →
          (commaList.parse text).map (·.map fun t => (t.start, t.stop)) =
            (g'.parse text).map (·.map fun t => (t.start, t.stop)) := by
  have gap : "\n".toList.all isGap := by simp [isGap]
  have reprintable := (commaList_notated.imp fun _ => reprintable_of_written).validators
  exact ⟨read_commaList, reprintable, gap, reprinted read_commaList reprintable gap⟩

/-- A slash in a literal is printed bare, and two of them open a comment. -/
theorem slash_not_reprinted : ∃ g, read "a : \"/\" ;" = .ok g ∧
    g.source "\n" = .ok "%entry a ;\na : /// ;" ∧ ∀ g', read "%entry a ;\na : /// ;" ≠ .ok g' := by
  refine ⟨⟨"a", [("a", [.terminal (.ofText "/")])]⟩, by rfl, by rfl, fun g' hread => ?_⟩
  have refused : (read "%entry a ;\na : /// ;").toOption.isNone := by cbv
  rw [hread] at refused
  cases refused

/-- A quantifier on a quantified group is printed without the parentheses that it needs. -/
theorem doubled_not_reprinted : ∃ g, read "a : (a?)* ;" = .ok g ∧
    g.source "\n" = .ok "%entry a ;\na : a?* ;" ∧ ∀ g', read "%entry a ;\na : a?* ;" ≠ .ok g' := by
  refine ⟨⟨"a", [("a", [.quantified (.quantified (.ref "a") .zeroOrOne) .zeroOrMore])]⟩,
    by rfl, by rfl, fun g' hread => ?_⟩
  have refused : (read "%entry a ;\na : a?* ;").toOption.isNone := by cbv
  rw [hread] at refused
  cases refused

end Grammar

end OrderedGrammar

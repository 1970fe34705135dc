import OrderedGrammar.Proofs.Matching.Reached
import OrderedGrammar.Proofs.Points.Accepts
import OrderedGrammar.Proofs.Transform.Calls

/-!
Reading a list of points undoes writing it. Part by part, the tree of a text tells a rendering of
the text and the points of what it renders: blanks and separators leave nothing, each pair leaves
its point, in order (`gathered_list`). Since a text renders at most one list of pairs, these are the
pairs it was written from.
-/

namespace OrderedGrammar.Points

open Matching Words Transform
open scoped Computability

variable {text : Text} {pos : Nat} {tag : String} {n : Tree} {ts : List Tree}
  {vs us ws : List Value} {s s' s₁ s₂ s₃ : Unit × Array Context}

/-- The pairs in the tree come to these points, one each and in order. -/
def PairsYield (text : Text) (n : Tree) (qs : List Point) : Prop :=
  List.Forall₂ (fun m q => Yields transforms text () m (.point q) ())
    (n.ofRule "coordinate_pair") qs

theorem ofValue_points (qs : List Point) : ofValue (.list (qs.map .point)) = qs := by
  simp [ofValue, List.filterMap_map]

section RoundTrip

variable [Regex] [Symbols]

/-- The points of a value that is the list of them. -/
theorem parse_of_parseValue {src : String} {qs : List Point}
    (h : parseValue src = .ok (.list (qs.map .point))) : parse src = .ok qs := by
  rw [parse, h]
  exact congrArg Except.ok (ofValue_points qs)

/-! ### Blanks -/

/-- Rules that come after pairs in the grammar have no pairs below them. -/
theorem no_pairs_behind {rule : String}
    (behind : grammar.ruleNames.idxOf "coordinate_pair" < grammar.ruleNames.idxOf rule) :
    ¬ grammar.Reaches (.ref rule) "coordinate_pair" :=
  Grammar.not_reaches_of_order (grammar.ruleNames.idxOf ·) references_forward behind

theorem blanks_no_pairs : ¬ grammar.Reaches (anyOf "wsp") "coordinate_pair" :=
  no_pairs_behind (by rw [ruleNames_eq]; decide)

theorem separator_no_pairs : ¬ grammar.Reaches (.ref "comma_wsp") "coordinate_pair" :=
  no_pairs_behind (by rw [ruleNames_eq]; decide)

/-- The pairs of a list stand between its blanks. -/
theorem pairsYield_list {a b c : Tree} {p e : Nat} {qs : List Point}
    (before : Gives grammar text (anyOf "wsp") p tag (.ok (some a)))
    (after : Gives grammar text (anyOf "wsp") e tag (.ok (some c))) {i : NodeInfo}
    (other : (i.isRule && i.rule == "coordinate_pair") = false) :
    PairsYield text (.list i [a, b, c]) qs ↔ PairsYield text b qs := by
  rw [PairsYield, Tree.ofRule_list _ other, List.flatMap_cons,
    before.ofRule_eq_nil blanks_no_pairs, List.flatMap_cons, List.flatMap_cons,
    after.ofRule_eq_nil blanks_no_pairs, List.flatMap_nil, List.nil_append, List.append_nil,
    List.append_nil, PairsYield]

theorem collectAll_blanks
    (chain : Linked (fun _ p t => Gives grammar text (.ref "wsp") p tag (.ok (some t))) pos ts)
    (hv : Runs (collectAll transforms text ts) s vs s') : vs = [] := by
  induction ts generalizing pos s vs with
  | nil => exact (runs_pure.mp hv).1
  | cons t ts ih =>
    obtain ⟨first, chain⟩ := linked_cons.mp chain
    obtain ⟨_, _, _, _, _, -, hw, hrest, rfl⟩ := runs_collectAll_cons.mp hv
    rw [nothing_of_gives rfl first hw, ih chain hrest, List.append_nil]

variable [LawfulSymbols]

/-- Blanks contribute nothing, however many there are. -/
theorem blanks_of_gives (h : Gives grammar text (anyOf "wsp") pos tag (.ok (some n)))
    (hv : Runs (collect transforms text n) s us s₁)
    (hw : Runs (contribution transforms text n us) s₂ ws s₃) :
    ws = [] ∧ ∃ b ∈ (words "wsp")∗, Spells text pos n.stop b := by
  refine ⟨?_, by simpa only [language_anyOf] using munches_blanks.spells h⟩
  cases h with
  | many _ chain _ _ _ =>
    rw [((runs_contribution_structural rfl).mp hw).1]
    exact collectAll_blanks chain hv

/-! ### Pairs -/

variable [LawfulRegex]

/-- A pair contributes its point. -/
theorem point_of_gives (h : Gives grammar text (.ref "coordinate_pair") pos tag (.ok (some n)))
    (hv : Runs (collect transforms text n) s us s₁)
    (hw : Runs (contribution transforms text n us) s₂ ws s₃) :
    ∃ p w q, RendersPair p w ∧ Spells text pos n.stop w ∧ Reads p q ∧ ws = [.point q] ∧
      PairsYield text n [q] := by
  obtain ⟨p, w, q, renders, spells, reads, rfl⟩ := collect_pair h hv
  obtain ⟨hr, hn⟩ := isRule_of_gives h
  have hf : transforms n.rule = some (stateless coordinatePair) := by rw [hn]; rfl
  obtain ⟨v, value, rfl⟩ := runs_contribution hr hf hw
  cases value
  have yields : Yields transforms text () n (.point q) () :=
    .called (by rw [transformOf, if_pos hr, hf]) (hv.gathers h.singleRule) rfl
  refine ⟨p, w, q, renders, spells, reads, rfl, ?_⟩
  rw [PairsYield, h.ofRule_eq_singleton grammar_nonRecursive]
  exact .cons yields .nil

/-- Each round contributes one point. -/
theorem collectAll_further (chain : Linked (fun _ p t => Gives grammar text
      (.sequence [.ref "comma_wsp", .ref "coordinate_pair"]) p tag (.ok (some t))) pos ts)
    (hv : Runs (collectAll transforms text ts) s vs s') :
    ∃ ps r qs, RendersFurther ps r ∧ Spells text pos (stopAfter pos ts) r ∧
      List.Forall₂ Reads ps qs ∧ vs = qs.map .point ∧
      List.Forall₂ (fun m q => Yields transforms text () m (.point q) ())
        (ts.flatMap (Tree.ofRule "coordinate_pair")) qs := by
  induction ts generalizing pos s vs with
  | nil => exact ⟨[], [], [], .nil, .nil, .nil, (runs_pure.mp hv).1, .nil⟩
  | cons t ts ih =>
    obtain ⟨first, chain⟩ := linked_cons.mp chain
    obtain ⟨_, _, _, _, _, hc, hw, hrest, rfl⟩ := runs_collectAll_cons.mp hv
    obtain ⟨ps, r, qs, further, spells, reads, rfl, yield⟩ := ih chain hrest
    obtain ⟨parts, stop, rfl, items⟩ := first.chained
    rcases items with _ | ⟨hsep, _ | ⟨hpair, _ | _⟩⟩
    obtain ⟨rfl, -⟩ := (runs_contribution_structural rfl).mp hw
    obtain ⟨_, _, _, _, _, -, hwc, h₁, rfl⟩ := runs_collectAll_cons.mp hc
    obtain ⟨_, _, _, _, _, hcp, hwp, h₂, rfl⟩ := runs_collectAll_cons.mp h₁
    obtain ⟨rfl, -⟩ := runs_pure.mp h₂
    obtain ⟨c, hc', sc⟩ := munches_comma_wsp.spells hsep
    obtain rfl := nothing_of_gives rfl hsep hwc
    obtain ⟨p, w, q, pair, sp, read, rfl, yields⟩ := point_of_gives hpair hcp hwp
    rw [stopAfter_cons]
    refine ⟨p :: ps, _, q :: qs, .cons hc' pair further, sc.append (sp.append spells),
      .cons read reads, rfl, ?_⟩
    rw [List.flatMap_cons, Tree.ofRule_list _ rfl, List.flatMap_cons, List.flatMap_cons,
      hsep.ofRule_eq_nil separator_no_pairs, List.flatMap_nil, List.append_nil]
    exact List.rel_append yields yield

/-- All pairs together contribute the list of their points. -/
theorem points_of_gives (h : Gives grammar text (.ref "coordinate_pairs") pos tag (.ok (some n)))
    (hv : Runs (collect transforms text n) s us s₁)
    (hw : Runs (contribution transforms text n us) s₂ ws s₃) :
    ∃ p w ps r qs, RendersPair p w ∧ RendersFurther ps r ∧ Spells text pos n.stop (w ++ r) ∧
      List.Forall₂ Reads (p :: ps) qs ∧ ws = [.list (qs.map .point)] ∧ PairsYield text n qs := by
  obtain ⟨items, hitems, parts, stop, rfl, items⟩ := Gives.chained_ref
    (show grammar.rule? "coordinate_pairs" = some ([[.ref "coordinate_pair", .quantified
      (.sequence [.ref "comma_wsp", .ref "coordinate_pair"]) .zeroOrMore]].map .sequence)
      from rfl) h
  obtain rfl := List.mem_singleton.mp hitems
  rcases items with _ | ⟨hpair, _ | ⟨hrounds, _ | _⟩⟩
  obtain ⟨v, hv', rfl⟩ := runs_contribution (f := fun c => .ok (.list c.values)) rfl rfl hw
  cases hv'
  obtain ⟨_, _, _, _, _, hcp, hwp, h₁, rfl⟩ := runs_collectAll_cons.mp hv
  obtain ⟨_, _, _, _, _, hcr, hwr, h₂, rfl⟩ := runs_collectAll_cons.mp h₁
  obtain ⟨rfl, -⟩ := runs_pure.mp h₂
  obtain ⟨p, w, q, pair, sp, read, rfl, yields⟩ := point_of_gives hpair hcp hwp
  cases hrounds with
  | many _ chain _ _ _ =>
    obtain ⟨rfl, -⟩ := (runs_contribution_structural rfl).mp hwr
    obtain ⟨ps, r, qs, further, spells, reads, rfl, yield⟩ := collectAll_further chain hcr
    refine ⟨p, w, ps, r, q :: qs, pair, further, sp.append spells, .cons read reads, ?_, ?_⟩
    · rw [List.append_nil]
      rfl
    · rw [PairsYield, Tree.ofRule_list _ rfl, List.flatMap_cons, List.flatMap_cons,
        List.flatMap_nil, List.append_nil, Tree.ofRule_list _ rfl]
      exact List.rel_append yields yield

/-! ### Lists -/

/-- What is gathered below a list tells a rendering of its text: nothing if it is blank, and else
the list of the points of all pairs. -/
theorem gathered_list (h : Gives grammar text (.ref "list_of_points") pos tag (.ok (some n)))
    (hv : Runs (collect transforms text n) s vs s') :
    ∃ ps w qs, Renders ps w ∧ Spells text pos n.stop w ∧ List.Forall₂ Reads ps qs ∧
      PairsYield text n qs ∧ (qs = [] ∧ vs = [] ∨ vs = [.list (qs.map .point)]) := by
  obtain ⟨items, hitems, parts, stop, rfl, items⟩ := Gives.chained_ref
    (show grammar.rule? "list_of_points" = some
      ([[anyOf "wsp", maybe "coordinate_pairs", anyOf "wsp"]].map .sequence) from rfl) h
  obtain rfl := List.mem_singleton.mp hitems
  rcases items with _ | ⟨hbefore, _ | ⟨hpairs, _ | ⟨hafter, _ | _⟩⟩⟩
  obtain ⟨_, _, _, _, _, hcb, hwb, h₁, rfl⟩ := runs_collectAll_cons.mp hv
  obtain ⟨_, _, _, _, _, hcp, hwp, h₂, rfl⟩ := runs_collectAll_cons.mp h₁
  obtain ⟨_, _, _, _, _, hca, hwa, h₃, rfl⟩ := runs_collectAll_cons.mp h₂
  obtain ⟨rfl, -⟩ := runs_pure.mp h₃
  obtain ⟨rfl, b, hb, sb⟩ := blanks_of_gives hbefore hcb hwb
  obtain ⟨rfl, e, he, se⟩ := blanks_of_gives hafter hca hwa
  cases hpairs with
  | once matched =>
    obtain ⟨p, w, ps, r, qs, pair, further, spells, reads, rfl, yield⟩ :=
      points_of_gives matched hcp hwp
    refine ⟨p :: ps, _, qs, .pairs hb pair further he, ?_, reads,
      (pairsYield_list hbefore hafter rfl).mpr yield, Or.inr rfl⟩
    rw [← List.append_assoc w]
    exact sb.append (spells.append se)
  | noOnce _ =>
    obtain ⟨rfl, -⟩ := (runs_contribution_structural rfl).mp hwp
    obtain ⟨rfl, -⟩ := runs_pure.mp hcp
    exact ⟨[], b ++ e, [], .blank (kstar_absorbs _ b hb e he), sb.append se, .nil,
      (pairsYield_list hbefore hafter rfl).mpr .nil, Or.inl ⟨rfl, rfl⟩⟩
  | many ha => simp at ha

/-- The first value below a list, if there is one, lists the points of all pairs. -/
theorem collect_list (h : Gives grammar text (.ref "list_of_points") pos tag (.ok (some n)))
    (hv : Runs (collect transforms text n) s vs s') :
    ∃ ps w qs, Renders ps w ∧ Spells text pos n.stop w ∧ List.Forall₂ Reads ps qs ∧
      vs.headD (.list []) = .list (qs.map .point) := by
  obtain ⟨ps, w, qs, renders, spells, reads, -, ⟨rfl, rfl⟩ | rfl⟩ := gathered_list h hv
  · exact ⟨ps, w, [], renders, spells, reads, rfl⟩
  · exact ⟨ps, w, qs, renders, spells, reads, rfl⟩

/-- A tree comes to the list of the points of the pairs that its text renders. -/
theorem apply_eq_points {v : Value}
    (given : Gives grammar text (.ref "list_of_points") pos tag (.ok (some n)))
    (hv : (Transform.apply transforms text n).1 = .ok v) :
    ∃ ps w qs, Renders ps w ∧ Spells text pos n.stop w ∧ List.Forall₂ Reads ps qs ∧
      v = .list (qs.map .point) := by
  obtain ⟨vs, s, s', gathered, value⟩ := apply_eq_ok hv
  obtain ⟨ps, w, qs, renders, spells, reads, head⟩ := collect_list given gathered
  obtain ⟨hr, hn⟩ := isRule_of_gives given
  rw [valueOf_of_some hr (by rw [hn]; rfl)] at value
  obtain rfl : vs.headD (.list []) = v := Except.ok.inj (runs_call_stateless.mp value).1
  exact ⟨ps, w, qs, renders, spells, reads, head⟩

/-- Reading gives a list of points and nothing else, or the text is refused. -/
theorem parseValue_cases (src : String) :
    (∃ qs : List Point, parseValue src = .ok (.list (qs.map .point))) ∨
      ∃ m, parseValue src = .error (.unmatched (.mismatch m)) := by
  obtain ⟨root, _, hparse, given, -, -⟩ := parse_longest (.ofString src)
  obtain ⟨v, hv, value⟩ := parseValue_eq given hparse
  obtain ⟨_, _, qs, -, -, -, rfl⟩ := apply_eq_points given hv
  rw [value]
  split
  · exact Or.inl ⟨qs, rfl⟩
  · exact Or.inr ⟨_, rfl⟩

/-- Whatever rendering of a list of pairs of numerals is read, its value is the list of one point
for each pair, in order, whose coordinates are what the numerals stand for. -/
theorem parse_of_renders {ps : List Numerals} {src : String} (h : Renders ps src.toList) :
    ∃ points, parseValue src = .ok (.list (points.map .point)) ∧ parse src = .ok points ∧
      List.Forall₂ Reads ps points := by
  obtain ⟨root, w, hparse, given, longest, hstop⟩ := parse_longest (.ofString src)
  -- the whole text is matched
  have whole : root.stop = (Text.ofString src).size := hstop.trans (longest.mem_iff.mp h.mem)
  obtain ⟨v, hv, value⟩ := parseValue_eq given hparse
  -- what its tree tells is a rendering of it
  obtain ⟨ps', u, qs, renders, ⟨hu, hlength⟩, reads, rfl⟩ := apply_eq_points given hv
  rw [if_pos whole] at value
  obtain rfl : u = src.toList := by
    refine hu.eq_of_length ?_
    rw [whole, Nat.zero_add] at hlength
    exact hlength.symm
  rw [h.unique renders]
  exact ⟨qs, value, parse_of_parseValue value, reads⟩

end RoundTrip

/-! ### A list with a separator left out -/

theorem digit_mem_digit_sequence {c : Char} (h : IsDigit c) : [c] ∈ words "digit_sequence" := by
  rw [words_digit_sequence]
  exact mem_single_mul_kstar.mpr ⟨by simp, by simpa using h⟩

theorem digit_mem_number {c : Char} (h : IsDigit c) : [c] ∈ words "number" := by
  rw [words_number, words_integer_constant]
  exact Or.inr ⟨[], Or.inl rfl, [c], digit_mem_digit_sequence h, rfl⟩

/-- Neither the point without digits behind it nor the minus sign needs a separator. -/
theorem renders_abutting :
    Renders [(['1', '.'], ['-', '2']), (['3'], ['4'])] " 1.-2,3 4".toList := by
  have one : ['1', '.'] ∈ words "number" := by
    have fraction : ['1', '.'] ∈ words "fractional_constant" := by
      rw [words_fractional_constant]
      exact Or.inr ⟨['1'], digit_mem_digit_sequence (by simp), ['.'], ⟨'.', rfl, rfl⟩, rfl⟩
    rw [words_number, words_floating_point_constant]
    exact Or.inl ⟨[], Or.inl rfl, _, Or.inl ⟨_, fraction, [], Or.inl rfl, rfl⟩, rfl⟩
  have minusTwo : ['-', '2'] ∈ words "number" := by
    refine negative_coordinate_le ?_
    rw [words_negative_coordinate, words_integer_constant]
    exact Or.inr ⟨['-'], ⟨'-', rfl, rfl⟩, ['2'], digit_mem_digit_sequence (by simp), rfl⟩
  have comma : [','] ∈ words "comma_wsp" := by
    rw [words_comma_wsp, words_comma]
    exact Or.inr ⟨[','], ⟨',', rfl, rfl⟩, [], Language.nil_mem_kstar _, rfl⟩
  have blanks : [' '] ∈ words "wsp" * (words "wsp")∗ := by
    rw [words_wsp]
    exact mem_single_mul_kstar.mpr (by simp)
  have blank : [' '] ∈ words "comma_wsp" := by
    rw [words_comma_wsp]
    exact Or.inl ⟨[' '], blanks, [], nil_mem_mul.mpr ⟨Or.inl rfl, Language.nil_mem_kstar _⟩, rfl⟩
  have before : [' '] ∈ (words "wsp")∗ := by
    rw [words_wsp]
    exact mem_kstar_single.mpr (by simp)
  exact .pairs before (.adjacent one minusTwo rfl)
    (.cons comma (.separated (digit_mem_number (by simp)) blank (digit_mem_number (by simp))) .nil)
    (Language.nil_mem_kstar _)

theorem abutting_read_back :
    Renders [(['1', '.'], ['-', '2']), (['3'], ['4'])] " 1.-2,3 4".toList ∧
      ∃ points, parseValue " 1.-2,3 4" = .ok (.list (points.map .point)) ∧
        parse " 1.-2,3 4" = .ok points ∧
        List.Forall₂ Reads [(['1', '.'], ['-', '2']), (['3'], ['4'])] points :=
  ⟨renders_abutting, parse_of_renders renders_abutting⟩

end OrderedGrammar.Points

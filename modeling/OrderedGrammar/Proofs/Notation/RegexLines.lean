import OrderedGrammar.Proofs.Notation.Reading
import OrderedGrammar.Proofs.Notation.Shape
import OrderedGrammar.Proofs.Pattern.Lawful
import OrderedGrammar.Proofs.Source.Lines

/-!
Regexes and the ends of lines. A usable token is what the source begins with at its offset
(`begins_of_mem_tokens`), and every terminal of a grammar that was read comes from such a token
(`Draft.foldlM_made`). So a regex leaves its line exactly where a backslash protects the line feed
from being looked at; a line that ends before its regex does is reported at the slash that opens it
(`scan_leftOpen`).
-/

namespace OrderedGrammar

namespace Notation

open Lexer

/-! ### Where tokens stand -/

/-- A token that can be used is what is left of the text begins with where it starts. -/
theorem begins_of_mem_scan {s : List Char} {n : Nat} {t : Token} (ht : t ∈ scan .gap n s)
    (usable : ¬ Unusable t) :
    ∃ s' r, s' <:+ s ∧ t.start = n + (s.length - s'.length) ∧ Begins s' t.lexeme r := by
  induction hlen : s.length using Nat.strong_induction_on generalizing s n with
  | _ len ih =>
    subst hlen
    rcases usable_or_fruitless s with (gap | ⟨s', l, r, gap, token⟩) | fruitless
    · rw [scan_gap gap (m := n + s.length) rfl] at ht
      cases ht
    · have hgap := gap.length_le
      have htoken := token.length_lt
      rw [scan_gap gap (m := n + (s.length - s'.length)) (by omega),
        scan_begins token (m := n + (s.length - r.length)) (by omega)] at ht
      rcases List.mem_cons.mp ht with rfl | later
      · exact ⟨s', r, gap.suffix, rfl, token⟩
      · obtain ⟨q, r', hq, start, begins⟩ := ih r.length (by omega) later rfl
        have := hq.length_le
        exact ⟨q, r', hq.trans (token.suffix.trans gap.suffix), by omega, begins⟩
    · obtain ⟨t', unusable, only⟩ := fruitless n
      rw [only, List.mem_singleton] at ht
      exact absurd (ht ▸ unusable) usable

/-- A source begins with its usable tokens at their offsets. -/
theorem begins_of_mem_tokens {src : List Char} {t : Token} (ht : t ∈ tokens src)
    (usable : ¬ Unusable t) : ∃ r, Begins (src.drop t.start) t.lexeme r := by
  obtain ⟨s, r, suffix, start, begins⟩ := begins_of_mem_scan (s := src) (n := 0) ht usable
  rw [Nat.zero_add] at start
  rw [start, ← List.suffix_iff_eq_drop.mp suffix]
  exact ⟨r, begins⟩

/-! ### The text between the slashes -/

/-- A line feed stands in the text of a regex only where a backslash protects it. -/
theorem RegexText.protects {p : List Char} (h : RegexText p) (feed : '\n' ∈ p) :
    ['\\', '\n'] <:+: p := by
  induction h with
  | nil => cases feed
  | @plain c s hc _ ih =>
    have inside := (List.mem_cons.mp feed).resolve_left hc.2.2.symm
    exact (ih inside).trans (List.suffix_cons c s).isInfix
  | @escaped c s _ ih =>
    by_cases hc : c = '\n'
    · exact hc ▸ (List.prefix_append ['\\', '\n'] s).isInfix
    · have inside : '\n' ∈ s := by simpa [eq_comm, hc] using feed
      exact (ih inside).trans (List.suffix_append ['\\', c] s).isInfix

/-- A regex token shows its pattern between two slashes. -/
theorem regex_of_mem_tokens {src pattern flags : List Char} {t : Token} (ht : t ∈ tokens src)
    (regex : t.lexeme = .regex pattern flags) : RegexText pattern ∧
      ∃ r, src.drop t.start = '/' :: (pattern ++ '/' :: (flags ++ r)) := by
  have usable : ¬ Unusable t := by rintro (h | ⟨_, h⟩) <;> cases regex.symm.trans h
  obtain ⟨r, begins⟩ := begins_of_mem_tokens ht usable
  rw [regex] at begins
  generalize src.drop t.start = s at begins ⊢
  cases begins with
  | regex hp _ _ _ => exact ⟨hp, r, rfl⟩

/-- Two offsets are on the same line if no line feed stands between them. -/
theorem line_eq_iff {src : String} {n : Nat} {between rest : List Char}
    (here : src.toList.drop n = between ++ rest) :
    (Position.of src n).line = (Position.of src (n + between.length)).line ↔ '\n' ∉ between := by
  have taken : src.toList.take (n + between.length) = src.toList.take n ++ between := by
    rw [List.take_add, here, List.take_left]
  simp only [Position.of, taken, List.count_append, ← List.count_eq_zero]
  omega

/-- Both slashes of a regex stand on one line exactly if no backslash stands in its pattern right
before a line feed. -/
theorem regex_line_iff {src : String} {pattern flags : List Char} {t : Token}
    (ht : t ∈ tokens src.toList) (regex : t.lexeme = .regex pattern flags) :
    (Position.of src t.start).line = (Position.of src (t.start + (pattern.length + 1))).line ↔
      ¬ ['\\', '\n'] <:+: pattern := by
  obtain ⟨text, r, here⟩ := regex_of_mem_tokens ht regex
  rw [← List.cons_append] at here
  rw [← List.length_cons (a := '/'), line_eq_iff here, not_iff_not]
  constructor
  · intro feed
    exact text.protects (by simpa using feed)
  · intro protect
    exact List.mem_cons_of_mem _ (protect.subset (by simp))

/-! ### Where terminals come from -/

section Made

variable [Regex]

/-- The token is a literal or a regex, and this is its terminal. -/
def Token.Makes (t : Token) (terminal : Terminal) : Prop :=
  (∃ text, t.lexeme = .literal text ∧ Terminal.literal (String.ofList text) = .ok terminal) ∨
    ∃ pattern flags, t.lexeme = .regex pattern flags ∧
      Terminal.make (String.ofList pattern) (String.ofList flags) = .ok terminal

/-- If the validator is a terminal, it is that of one of the tokens. -/
def MadeFrom (ts : List Token) (v : Validator) : Prop :=
  ∀ terminal, v = .terminal terminal → ∃ t ∈ ts, t.Makes terminal

/-- All terminals of the validators are made from the tokens. -/
def AllMade (ts : List Token) (vs : List Validator) : Prop := ∀ v ∈ vs, v.Everywhere (MadeFrom ts)

variable {ts : List Token} {vs : List Validator}

theorem made_items (h : AllMade ts vs) : (ofItems vs.reverse).Everywhere (MadeFrom ts) :=
  Validator.everywhere_ofItems (fun v hv => h v (List.mem_reverse.mp hv)) fun _ => by rintro _ ⟨⟩

/-- All terminals of an open rule are made from the tokens. -/
structure OpenRule.Made (ts : List Token) (r : OpenRule) : Prop where
  alternatives : AllMade ts r.alternatives
  outer : ∀ items ∈ r.outer, AllMade ts items
  items : AllMade ts r.items

/-- All terminals of what the reader keeps are made from the tokens. -/
structure Draft.Made (ts : List Token) (d : Draft) : Prop where
  rules : ∀ rule ∈ d.rules, AllMade ts rule.2
  body : ∀ r, d.phase = .body r → r.Made ts

theorem OpenRule.Made.after {r : OpenRule} (h : r.Made ts) {v : Validator}
    (hv : v.Everywhere (MadeFrom ts)) (stop : Option Nat) : (r.after [v] stop).Made ts :=
  ⟨h.alternatives, h.outer, List.forall_mem_cons.mpr ⟨hv, h.items⟩⟩

namespace Draft

variable {d d' : Draft} {r : OpenRule} {t : Token}

theorem Made.inside (hd : d.Made ts) (hr : r.Made ts) : (d.inside r).Made ts :=
  ⟨hd.rules, by rintro _ ⟨⟩; exact hr⟩

/-- Outside the bodies of rules only the rules that are complete have terminals. -/
theorem Made.outside (hd : d.Made ts) {next : Draft} (same : next.rules = d.rules)
    (outside : ∀ r, next.phase ≠ .body r) : next.Made ts :=
  ⟨same ▸ hd.rules, fun r h => absurd h (outside r)⟩

theorem bodyMark_made (hd : d.Made ts) (hr : r.Made ts) (h : d.bodyMark r t = .ok d') :
    d'.Made ts := by
  have closed : AllMade ts (ofItems r.items.reverse :: r.alternatives) :=
    List.forall_mem_cons.mpr ⟨made_items hr.items, hr.alternatives⟩
  unfold bodyMark at h
  split_ifs at h with semicolon bar closing opening
  · obtain ⟨-, -, -, rfl⟩ := closeRule_eq_ok.mp h
    refine ⟨fun rule hrule => ?_, by rintro _ ⟨⟩⟩
    rcases List.mem_append.mp hrule with old | new
    · exact hd.rules rule old
    · obtain rfl := List.mem_singleton.mp new
      exact fun v hv => closed v (List.mem_reverse.mp hv)
  · obtain ⟨-, -, rfl⟩ := nextAlternative_eq_ok.mp h
    exact hd.inside ⟨closed, hr.outer, by rintro _ ⟨⟩⟩
  · obtain ⟨items, outer, opened, -, rfl⟩ := closeGroup_eq_ok.mp h
    obtain ⟨before, others⟩ := List.forall_mem_cons.mp (opened ▸ hr.outer)
    have around : OpenRule.Made ts { r with outer, items } := ⟨hr.alternatives, others, before⟩
    exact hd.inside (around.after (made_items hr.items) _)
  · cases h
    refine hd.inside ⟨hr.alternatives, ?_, by rintro _ ⟨⟩⟩
    exact List.forall_mem_cons.mpr ⟨hr.items, hr.outer⟩
  · split at h
    · obtain ⟨v, items, top, -, rfl⟩ := applySuffix_eq_ok.mp h
      obtain ⟨inner, others⟩ := List.forall_mem_cons.mp (top ▸ hr.items)
      have under : OpenRule.Made ts { r with items } := ⟨hr.alternatives, hr.outer, others⟩
      exact hd.inside (under.after (.quantified (by rintro _ ⟨⟩) inner) _)
    · cases h

theorem bodyToken_made (ht : t ∈ ts) (hd : d.Made ts) (hr : r.Made ts)
    (h : d.bodyToken r t = .ok d') : d'.Made ts := by
  have item {terminal : Terminal} (made : t.Makes terminal) :
      (d.inside (r.after [.terminal terminal] (some t.stop))).Made ts :=
    hd.inside (hr.after (.terminal (by rintro _ ⟨⟩; exact ⟨t, ht, made⟩)) _)
  unfold bodyToken at h
  cases hl : t.lexeme with
  | name s =>
    rw [hl] at h
    cases h
    exact hd.inside (hr.after (.ref (by rintro _ ⟨⟩)) _)
  | regex pattern flags =>
    rw [hl] at h
    dsimp only at h
    obtain ⟨terminal, made, rfl⟩ := addTerminal_eq_ok.mp h
    exact item (Or.inr ⟨pattern, flags, hl, made⟩)
  | literal s =>
    rw [hl] at h
    dsimp only at h
    obtain ⟨terminal, made, rfl⟩ := addTerminal_eq_ok.mp h
    exact item (Or.inl ⟨s, hl, made⟩)
  | mark =>
    rw [hl] at h
    exact bodyMark_made hd hr h
  | malformed e =>
    rw [hl] at h
    cases h
  | openComment =>
    rw [hl] at h
    cases h

/-- A token of the source keeps it so that terminals come from the tokens. -/
theorem step_made (ht : t ∈ ts) (hd : d.Made ts) (h : d.step t = .ok d') : d'.Made ts := by
  replace h := step_closed h
  cases phase : d.phase with
  | between =>
    rw [phase] at h
    rcases betweenToken_eq_ok.mp h with ⟨_, -, rfl⟩ | ⟨-, -, rfl⟩ <;>
      exact hd.outside rfl (by rintro _ ⟨⟩)
  | directive offset =>
    rw [phase] at h
    obtain ⟨_, -, -, -, rfl⟩ := directiveToken_eq_ok.mp h
    exact hd.outside rfl (by rintro _ ⟨⟩)
  | entryName =>
    rw [phase] at h
    obtain ⟨_, -, rfl⟩ := entryNameToken_eq_ok.mp h
    exact hd.outside rfl (by rintro _ ⟨⟩)
  | entryEnd name =>
    rw [phase] at h
    obtain ⟨-, -, rfl⟩ := expectMark_eq_ok.mp h
    exact hd.outside rfl (by rintro _ ⟨⟩)
  | colon name offset =>
    rw [phase] at h
    obtain ⟨-, -, rfl⟩ := expectMark_eq_ok.mp h
    exact hd.inside ⟨by rintro _ ⟨⟩, by rintro _ ⟨⟩, by rintro _ ⟨⟩⟩
  | body r =>
    rw [phase] at h
    exact bodyToken_made ht hd (hd.body r phase) h

theorem foldlM_made {us : List Token} (hus : us ⊆ ts) (hd : d.Made ts)
    (h : us.foldlM step d = .ok d') : d'.Made ts := by
  induction us generalizing d with
  | nil =>
    cases h
    exact hd
  | cons t us ih =>
    obtain ⟨ht, hus⟩ := List.cons_subset.mp hus
    rw [List.foldlM_cons] at h
    obtain ⟨next, step, others⟩ := bind_eq_ok.mp h
    exact ih hus (step_made ht hd step) others

end Draft

/-- Every terminal of a grammar that was read is that of a literal or a regex of its source. -/
theorem made_of_read {src : String} {g : Grammar} (h : read src = .ok g) :
    ∀ rule ∈ g.rules, AllMade (tokens src.toList) rule.2 := by
  rw [read_eq] at h
  obtain ⟨d, taken, finished⟩ := bind_eq_ok.mp h
  have start : Draft.Made (tokens src.toList) .start := ⟨by rintro _ ⟨⟩, by rintro _ ⟨⟩⟩
  obtain ⟨-, _, _, -, rfl⟩ := Draft.finish_eq_ok.mp finished
  exact (Draft.foldlM_made (List.Subset.refl _) start taken).rules

end Made

/-! ### Regexes that are left open -/

namespace Lexer

variable {n start : Nat} {body rest read : List Char}

/-- A token may begin here; a name or flags, if the lexer reads any, end at a slash. -/
def Mode.Between : Mode → Prop
  | .gap => True
  | .name _ _ _ => True
  | .flags _ _ _ => True
  | _ => False

/-- The source or the line ends, or the source ends behind a backslash. -/
def Broken (rest : List Char) : Prop := rest = [] ∨ rest = ['\\'] ∨ ∃ more, rest = '\n' :: more

theorem offset_foldl (s : State) (text : List Char) :
    (text.foldl step s).offset = s.offset + text.length := by
  induction text generalizing s with
  | nil => rfl
  | cons c text ih =>
    have moved : (step s c).offset = s.offset + 1 := congrArg (· + 1) (take_offset s c)
    rw [List.foldl_cons, ih, moved, List.length_cons]
    omega

/-- Where a token may begin, a slash ends what is read and opens a comment or a regex. -/
theorem step_slash {s : State} (between : s.mode.Between) :
    step s '/' = State.over ⟨.slash s.offset, s.offset + 1, []⟩ (finish s).tokens := by
  obtain ⟨m, n, ts⟩ := s
  cases m with
  | gap => rfl
  | name start head read => rfl
  | flags start pattern read => rfl
  | _ => exact between.elim

/-- A line that ends before the regex does makes it malformed. -/
theorem scan_broken (hrest : Broken rest) : ∃ stop,
    scan (.regex start read false) n rest =
      [⟨'/', start, stop, .malformed ⟨.unterminatedRegex, start⟩⟩] := by
  obtain rfl | rfl | ⟨more, rfl⟩ := hrest
  · exact ⟨_, rfl⟩
  · exact ⟨_, rfl⟩
  · refine ⟨n, ?_⟩
    rw [scan_cons]
    simp [take, inRegex, halt, scan_halted]

/-- A regex that is left open is malformed, whatever follows its line. -/
theorem scan_leftOpen (start n : Nat) (text : RegexText body) (noComment : body.head? ≠ some '*')
    (broken : Broken rest) : ∃ stop, scan (.slash start) n (body ++ rest) =
      [⟨'/', start, stop, .malformed ⟨.unterminatedRegex, start⟩⟩] := by
  have opened : scan (.slash start) n (body ++ rest) =
      scan (.regex start [] false) n (body ++ rest) := by
    cases text with
    | nil =>
      obtain rfl | rfl | ⟨more, rfl⟩ := broken
      · rfl
      · exact scan_slash_regex (by decide)
      · exact scan_slash_regex (by decide)
    | plain hc _ => exact scan_slash_regex ⟨hc.2.1, by simpa using noComment⟩
    | escaped _ => exact scan_slash_regex (by decide)
  rw [opened, scan_regexText text]
  exact scan_broken broken

end Lexer

/-- The tokens before a slash where a token may begin are those of the text before it. -/
theorem tokens_append_slash {before tail : List Char}
    (between : (before.foldl step Lexer.start).mode.Between) :
    tokens (before ++ '/' :: tail) =
      tokens before ++ scan (.slash before.length) (before.length + 1) tail := by
  have offset : (before.foldl step Lexer.start).offset = before.length := by
    rw [offset_foldl]
    exact Nat.zero_add _
  rw [tokens, tokens, List.foldl_append, List.foldl_cons, step_slash between, foldl_over,
    finish_over, List.reverse_append, offset]
  rfl

/-- A regex left open where an item may stand is reported at the slash that opens it. -/
theorem read_leftOpen [Regex] {src : String} {before body rest : List Char} {d : Draft}
    {r : OpenRule} (split : src.toList = before ++ '/' :: (body ++ rest))
    (between : (before.foldl step Lexer.start).mode.Between)
    (taken : (tokens before).foldlM Draft.step .start = .ok d) (inRule : d.phase = .body r)
    (text : RegexText body) (noComment : body.head? ≠ some '*') (broken : Broken rest) :
    read src = .error ⟨.unterminatedRegex, before.length⟩ := by
  obtain ⟨stop, last⟩ := scan_leftOpen before.length (before.length + 1) text noComment broken
  rw [read_eq, split, tokens_append_slash between, last, List.foldlM_append, taken]
  obtain ⟨rules, entry, phase⟩ := d
  obtain rfl : phase = .body r := inRule
  rfl

/-- Regexes and the ends of lines, in every source. A regex shows its pattern between two slashes,
and these stand on one line exactly if no backslash stands in the pattern right before a line feed,
which is exactly if the pattern holds no line feed. The terminals of a grammar that is read are
those of the literals and the regexes of its source. Where an item may stand, a regex whose line
ends before a slash closes it, other than behind a backslash that protects the line feed, is
reported at the slash that opens it. -/
theorem regex_lines [Regex] (src : String) :
    (∀ t ∈ tokens src.toList, ∀ pattern flags, t.lexeme = .regex pattern flags →
      (∃ rest, src.toList.drop t.start = '/' :: (pattern ++ '/' :: rest)) ∧
      ((Position.of src t.start).line = (Position.of src (t.start + (pattern.length + 1))).line ↔
        ¬ ['\\', '\n'] <:+: pattern) ∧
      ('\n' ∈ pattern ↔ ['\\', '\n'] <:+: pattern)) ∧
    (∀ g, read src = .ok g →
      ∀ rule ∈ g.rules, ∀ v ∈ rule.2, v.Everywhere (MadeFrom (tokens src.toList))) ∧
    ∀ before body rest d r, src.toList = before ++ '/' :: (body ++ rest) →
      (before.foldl Lexer.step Lexer.start).mode.Between →
      (tokens before).foldlM Draft.step .start = .ok d → d.phase = .body r →
      RegexText body → body.head? ≠ some '*' → Broken rest →
      ∃ e, read src = .error e ∧ e.offset = before.length ∧
        e.cause.text = "unterminated /regex/" := by
  refine ⟨fun t ht pattern flags regex => ?_, fun g => made_of_read, ?_⟩
  · obtain ⟨text, r, here⟩ := regex_of_mem_tokens ht regex
    exact ⟨⟨_, here⟩, regex_line_iff ht regex, text.protects, fun h => h.subset (by simp)⟩
  · intro before body rest d r split between taken inRule text noComment broken
    exact ⟨_, read_leftOpen split between taken inRule text noComment broken, rfl, rfl⟩

/-- A regex at the end of whose line no backslash stands. -/
theorem regex_at_line_end :
    "a : /x\n/ ;".toList = "a : ".toList ++ '/' :: (['x'] ++ "\n/ ;".toList) ∧
    ("a : ".toList.foldl Lexer.step Lexer.start).mode.Between ∧ RegexText ['x'] ∧
    Broken "\n/ ;".toList ∧
    ∃ e, read "a : /x\n/ ;" = .error e ∧ e.offset = 4 ∧
      e.cause.text = "unterminated /regex/" := by
  have split : "a : /x\n/ ;".toList = "a : ".toList ++ '/' :: (['x'] ++ "\n/ ;".toList) := by rfl
  have between : ("a : ".toList.foldl Lexer.step Lexer.start).mode.Between := trivial
  have text : RegexText ['x'] := .plain (by decide) .nil
  have broken : Broken "\n/ ;".toList := Or.inr (Or.inr ⟨_, rfl⟩)
  obtain ⟨-, -, reported⟩ := regex_lines "a : /x\n/ ;"
  exact ⟨split, between, text, broken,
    reported _ _ _ _ _ split between rfl rfl text (by decide) broken⟩

/-- Behind a backslash a line feed is not looked at, and the regex goes on in the next line. -/
theorem regex_over_two_lines : ∃ terminal, terminal.pattern = "x\\\n" ∧
    read "a : /x\\\n/ ;" = .ok ⟨"a", [("a", [.terminal terminal])]⟩ ∧
    ∃ t ∈ tokens "a : /x\\\n/ ;".toList, t.lexeme = .regex ['x', '\\', '\n'] [] ∧
      (Position.of "a : /x\\\n/ ;" t.start).line ≠
        (Position.of "a : /x\\\n/ ;" (t.start + 4)).line := by
  obtain ⟨compiled, hc⟩ : ∃ compiled, Terminal.compile "x\\\n" "" = .ok compiled := ⟨_, by rfl⟩
  have made : Terminal.make "x\\\n" "" = .ok ⟨"x\\\n", "", compiled, hc⟩ :=
    Terminal.make_eq_ok.mpr ⟨rfl, rfl⟩
  have found : tokens "a : /x\\\n/ ;".toList =
      [⟨'a', 0, 1, .name ['a']⟩, ⟨':', 2, 3, .mark⟩, ⟨'/', 4, 9, .regex ['x', '\\', '\n'] []⟩,
        ⟨';', 10, 11, .mark⟩] := by decide
  refine ⟨⟨"x\\\n", "", compiled, hc⟩, rfl, ?_, ⟨'/', 4, 9, .regex ['x', '\\', '\n'] []⟩, ?_, rfl,
    by decide⟩
  case refine_2 =>
    rw [found]
    decide
  have item (d : Draft) (r : OpenRule) :
      (d.inside r).step ⟨'/', 4, 9, .regex ['x', '\\', '\n'] []⟩ =
        .ok (d.inside (r.after [.terminal ⟨"x\\\n", "", compiled, hc⟩] (some 9))) := by
    rw [Draft.step_regex rfl]
    exact congrArg (Draft.addTerminal (d.inside r) r · _) made
  have begun : (tokens "a : /x\\\n/ ;".toList).foldlM Draft.step .start =
      (Draft.inside ⟨[], none, .between⟩ ⟨"a", 0, [], [], [], none⟩).step
          ⟨'/', 4, 9, .regex ['x', '\\', '\n'] []⟩ >>= fun d => d.step ⟨';', 10, 11, .mark⟩ := by
    rw [found]
    rfl
  rw [read_eq, begun, item]
  rfl

end Notation

end OrderedGrammar

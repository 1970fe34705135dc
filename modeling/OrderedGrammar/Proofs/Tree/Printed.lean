import OrderedGrammar.Proofs.Matching.Tags
import OrderedGrammar.Proofs.Pattern.Escaped
import OrderedGrammar.Proofs.Text.Quoted
import OrderedGrammar.Tree.Printer

/-!
What printed trees tell. A line is a run of blanks, a label, a span and a text in quotes. Names hold
no blanks, parentheses or line feeds, so each part ends where the next one begins and a line tells
all about its node (`row_eq_of_line`). No part holds a line feed, so a printed tree falls into the
lines of its nodes again; and if terminals take slices of the text, it tells what all nodes cover
(`printed_faithful`).
-/

namespace OrderedGrammar

/-! ### Runs of characters -/

/-- Two runs of characters of a class are the same if what follows them begins with no character of
the class, and so is what follows. -/
theorem run_inj {p : Char → Bool} {a b s t : List Char} (ha : ∀ c ∈ a, p c) (hb : ∀ c ∈ b, p c)
    (hs : ∀ c ∈ s.head?, p c = false) (ht : ∀ c ∈ t.head?, p c = false) (h : a ++ s = b ++ t) :
    a = b ∧ s = t := by
  have taken {a s : List Char} (ha : ∀ c ∈ a, p c) (hs : ∀ c ∈ s.head?, p c = false) :
      (a ++ s).takeWhile p = a := by
    rw [List.takeWhile_append_of_pos ha]
    cases s with
    | nil => simp
    | cons c s => simp [hs c rfl]
  have same : a = b := by rw [← taken ha hs, h, taken hb ht]
  exact ⟨same, List.append_cancel_left (same ▸ h)⟩

/-- What stands before the first of two equal signs is the same, and so is what stands behind. -/
theorem cut_inj {x : Char} {a b s t : List Char} (ha : x ∉ a) (hb : x ∉ b)
    (h : a ++ x :: s = b ++ x :: t) : a = b ∧ s = t := by
  have apart {a : List Char} (ha : x ∉ a) : ∀ c ∈ a, c != x := fun c hc => by
    simpa using fun same : c = x => ha (same ▸ hc)
  obtain ⟨before, behind⟩ := run_inj (p := (· != x)) (apart ha) (apart hb) (by simp) (by simp) h
  exact ⟨before, (List.cons.inj behind).2⟩

/-- A character that neither opens names nor continues them is in no name. -/
theorem Text.notMem_of_isName {c : Char} {w : List Char} (opens : opensName c = false)
    (continues : continuesName c = false) (h : isName w) : c ∉ w := by
  cases w with
  | nil => exact List.not_mem_nil
  | cons d w =>
    obtain ⟨first, others⟩ := by simpa only [isName, Bool.and_eq_true] using h
    intro hc
    rcases List.mem_cons.mp hc with rfl | hc
    · rw [opens] at first
      cases first
    · have inside := List.all_eq_true.mp others c hc
      rw [continues] at inside
      cases inside

namespace Tree

open Text

/-- What the line of a node tells about it. -/
structure Row where
  depth : Nat
  start : Nat
  last : Int
  rule : String
  isRule : Bool
  source : String
  deriving DecidableEq

/-- The row of a node at a depth. -/
def row (src : Text) (node : Nat × Tree) : Row :=
  ⟨node.1, node.2.start, node.2.last, node.2.rule, node.2.isRule, node.2.source src⟩

/-- The rows of all nodes, a node before its children. -/
def rows (src : Text) (t : Tree) : List Row := (t.preorder 0).map (row src)

/-- The line of a node at a depth. -/
def lineOf (src : Text) (node : Nat × Tree) : String := node.2.line src node.1

variable {src src' : Text} {t t' : Tree} {n n' : Nat × Tree} {d d' : Nat}

/-! ### The parts of a line -/

theorem toList_label (t : Tree) : t.label.toList =
    if t.isRule then t.rule.toList else '(' :: (t.rule.toList ++ [')']) := by
  unfold label
  split <;> simp

theorem toList_span (t : Tree) :
    t.span.toList = t.start.repr.toList ++ '.' :: '.' :: t.last.repr.toList := by
  have span : t.span = t.start.repr ++ ".." ++ t.last.repr := by
    simp only [Tree.span]
    rfl
  rw [span]
  simp

theorem toList_line (src : Text) (depth : Nat) (t : Tree) : (t.line src depth).toList =
    List.replicate (2 * depth) ' ' ++ (t.label.toList ++
      ' ' :: (t.span.toList ++ ' ' :: (quoted (t.shownText src)).toList)) := by
  have blanks (k : Nat) : ("".pushn ' ' k).toList = List.replicate k ' ' := by
    rw [String.pushn_eq_repeat_push]
    induction k with
    | zero => rfl
    | succ k ih => rw [Nat.repeat, String.toList_push, ih, List.replicate_succ']
  simp [line, blanks]

/-- A label holds characters of its name and parentheses. -/
theorem notMem_label {c : Char} (name : c ∉ t.rule.toList) (hc : c ≠ '(' ∧ c ≠ ')') :
    c ∉ t.label.toList := by
  rw [toList_label]
  split
  · exact name
  · simp [name, hc]

theorem label_inj (ht : isName t.rule.toList) (ht' : isName t'.rule.toList)
    (h : t.label.toList = t'.label.toList) : t.rule = t'.rule ∧ t.isRule = t'.isRule := by
  have bare {name : List Char} (hn : isName name) : '(' ∉ name := notMem_of_isName rfl rfl hn
  rw [toList_label, toList_label] at h
  split at h <;> split at h
  · next hr hr' => exact ⟨String.toList_inj.mp h, hr.trans hr'.symm⟩
  · exact absurd (h ▸ List.mem_cons_self) (bare ht)
  · exact absurd (h ▸ List.mem_cons_self) (bare ht')
  · next hr hr' =>
    have name := List.append_cancel_right (List.cons.inj h).2
    exact ⟨String.toList_inj.mp name, (Bool.eq_false_iff.mpr hr).trans
      (Bool.eq_false_iff.mpr hr').symm⟩

/-- A number is written with digits. -/
theorem notMem_repr {c : Char} (other : c.isDigit = false) (k : Nat) : c ∉ k.repr.toList := by
  intro h
  have digit : c.isDigit :=
    Nat.isDigit_of_mem_toDigits (by decide) (by decide) (Nat.toList_repr ▸ h)
  rw [other] at digit
  cases digit

/-- A span is written with digits, points and minus signs. -/
theorem notMem_span {c : Char} (other : c.isDigit = false) (hc : c ≠ '.' ∧ c ≠ '-') :
    c ∉ t.span.toList := by
  have last : c ∉ t.last.repr.toList := by
    rw [Int.repr_eq_if]
    split
    · exact notMem_repr other _
    · rw [String.toList_append, List.mem_append, not_or]
      exact ⟨by simpa using hc.2, notMem_repr other _⟩
  rw [toList_span]
  simp only [List.mem_append, List.mem_cons, not_or]
  exact ⟨notMem_repr other _, hc.1, hc.1, last⟩

theorem span_inj (h : t.span.toList = t'.span.toList) : t.start = t'.start ∧ t.last = t'.last := by
  rw [toList_span, toList_span] at h
  obtain ⟨start, last⟩ := cut_inj (notMem_repr rfl _) (notMem_repr rfl _) h
  exact ⟨Nat.repr_inj.mp (String.toList_inj.mp start),
    Int.repr_inj.mp (String.toList_inj.mp (List.cons.inj last).2)⟩

/-! ### Lines -/

/-- No part of a line has a line feed. -/
theorem lineFeed_notMem_line (name : isName t.rule.toList) (src : Text) (depth : Nat) :
    '\n' ∉ (t.line src depth).toList := by
  have label : '\n' ∉ t.label.toList :=
    notMem_label (notMem_of_isName rfl rfl name) (by decide)
  have span : '\n' ∉ t.span.toList := notMem_span rfl (by decide)
  rw [toList_line]
  simp [label, span, lineFeed_notMem_quoted]

/-- A line tells the depth of its node, its label, its span and the text that it shows. -/
theorem parts_of_line (ht : isName t.rule.toList) (ht' : isName t'.rule.toList)
    (h : t.line src d = t'.line src' d') : d = d' ∧ t.label.toList = t'.label.toList ∧
      t.span.toList = t'.span.toList ∧ t.shownText src = t'.shownText src' := by
  have blank {t : Tree} (ht : isName t.rule.toList) : ' ' ∉ t.label.toList :=
    notMem_label (notMem_of_isName rfl rfl ht) (by decide)
  -- the label is not empty, so it ends the blanks before it
  have begins {t : Tree} (ht : isName t.rule.toList) (s : List Char) :
      ∀ c ∈ (t.label.toList ++ ' ' :: s).head?, (c == ' ') = false := by
    have letters : t.label.toList ≠ [] := by
      rw [toList_label]
      split
      · intro empty
        rw [empty] at ht
        cases ht
      · exact List.cons_ne_nil _ _
    intro c hc
    rw [List.head?_append_of_ne_nil _ letters] at hc
    have inside := List.mem_of_mem_head? hc
    exact beq_eq_false_iff_ne.mpr fun same => blank ht (same ▸ inside)
  have chars := congrArg String.toList h
  rw [toList_line, toList_line] at chars
  obtain ⟨indent, chars⟩ := run_inj (p := (· == ' ')) (by simp) (by simp) (begins ht _)
    (begins ht' _) chars
  obtain ⟨label, chars⟩ := cut_inj (blank ht) (blank ht') chars
  obtain ⟨span, text⟩ := cut_inj (notMem_span rfl (by decide)) (notMem_span rfl (by decide)) chars
  refine ⟨?_, label, span, quoted_inj.mp (String.toList_inj.mp text)⟩
  have lengths := congrArg List.length indent
  simp only [List.length_replicate] at lengths
  omega

/-- A line shows what its node covers. -/
theorem shownText_of_inPlace (h : t.InPlace src) : t.shownText src = t.source src := by
  cases t with
  | text i s => exact h
  | single i c => rfl
  | list i cs => rfl

/-- A node with the name of a rule, and with its text in place. -/
def Plain (src : Text) (t : Tree) : Prop := isName t.rule.toList ∧ t.InPlace src

/-- A line tells all about its node. -/
theorem row_eq_of_line (hn : n.2.Plain src) (hn' : n'.2.Plain src')
    (h : lineOf src n = lineOf src' n') : row src n = row src' n' := by
  obtain ⟨depth, label, span, text⟩ := parts_of_line hn.1 hn'.1 h
  obtain ⟨rule, isRule⟩ := label_inj hn.1 hn'.1 label
  obtain ⟨start, last⟩ := span_inj span
  rw [shownText_of_inPlace hn.2, shownText_of_inPlace hn'.2] at text
  simp only [row, depth, start, last, rule, isRule, text]

/-! ### Trees -/

theorem mem_nodes_of_mem_preorder (h : n ∈ t.preorder 0) : n.2 ∈ t.nodes :=
  List.mem_map_of_mem h

/-- A printed tree falls into the lines of its nodes. -/
theorem splitOn_format (named : ∀ n ∈ t.nodes, isName n.rule.toList) :
    (t.format src).toList.splitOn '\n' = (t.preorder 0).map fun n => (lineOf src n).toList := by
  have lines : (t.format src).toList =
      ['\n'].intercalate ((t.preorder 0).map fun n => (lineOf src n).toList) := by
    rw [format, String.toList_intercalate, Tree.lines, List.map_map]
    rfl
  rw [lines, List.splitOn_intercalate]
  · intro text found
    obtain ⟨n, hn, rfl⟩ := List.mem_map.mp found
    exact lineFeed_notMem_line (named _ (mem_nodes_of_mem_preorder hn)) src n.1
  · cases t <;> simp [preorder]

example : (text ⟨"line", true, 0, 2⟩ "'\n").format #['\'', '\n'] = "line 0..1 \"'\\n\"" := by
  decide

/-- Equal lines one by one tell equal rows. -/
theorem rows_eq_of_lines {ns ns' : List (Nat × Tree)} (plain : ∀ n ∈ ns, n.2.Plain src)
    (plain' : ∀ n ∈ ns', n.2.Plain src')
    (h : (ns.map fun n => (lineOf src n).toList) = ns'.map fun n => (lineOf src' n).toList) :
    ns.map (row src) = ns'.map (row src') := by
  induction ns generalizing ns' with
  | nil =>
    obtain rfl := List.map_eq_nil_iff.mp h.symm
    rfl
  | cons n ns ih =>
    cases ns' with
    | nil => cases h
    | cons n' ns' =>
      obtain ⟨first, others⟩ := List.forall_mem_cons.mp plain
      obtain ⟨first', others'⟩ := List.forall_mem_cons.mp plain'
      obtain ⟨line, lines⟩ := List.cons.inj h
      rw [List.map_cons, List.map_cons, ih others others' lines,
        row_eq_of_line first first' (String.toList_inj.mp line)]

end Tree

namespace Matching

open OrderedGrammar.Tree

section Printed

variable [Regex] [LawfulRegex] {g g' : Grammar} {text text' : Text} {v : Validator} {pos : Nat}
  {tag : String} {t t' : Tree}

/-- All nodes carry names of declared rules if the tag that was asked for is one. -/
theorem Gives.rule_mem (h : Gives g text v pos tag (.ok (some t))) :
    tag ∈ g.ruleNames → ∀ n ∈ t.nodes, n.rule ∈ g.ruleNames := by
  refine tree_induction (P := fun _ tag t => tag ∈ g.ruleNames → ∀ n ∈ t.nodes,
    n.rule ∈ g.ruleNames) ?_ ?_ ?_ h t rfl
  · intro pos tag taken declared n hn
    obtain rfl := List.mem_singleton.mp hn
    exact declared
  · intro pos tag name t given ih _ n hn
    have declared := given.declared
    rcases mem_nodes_asRule hn with rfl | hn
    · rwa [rule_asRule]
    · exact ih declared n hn
  · intro pos tag ts linked declared n hn
    rw [listNode_eq, nodes_list, List.mem_cons] at hn
    rcases hn with rfl | hn
    · exact declared
    · obtain ⟨t, ht, hn⟩ := List.mem_flatMap.mp hn
      obtain ⟨i, hi⟩ := List.getElem?_of_mem ht
      exact (linked i t hi).2 declared n hn

/-- Under rules with names of the notation all nodes of a parse have such names. -/
theorem named_of_parse (names : ∀ name ∈ g.ruleNames, Text.isName name.toList)
    (h : g.parse text = .ok (some t)) : ∀ n ∈ t.nodes, Text.isName n.rule.toList := by
  have given : Gives g text (.ref g.entry) 0 g.entry (.ok (some t)) :=
    gives_iff.mpr ⟨by simp, depthLimit, h⟩
  exact fun n hn => names _ (given.rule_mem given.declared n hn)

/-- If terminals take slices, all nodes of a parse have their texts in place. -/
theorem inPlace_of_parse (slices : g.TerminalsAre Terminal.TakesSlices)
    (h : g.parse text = .ok (some t)) : ∀ n ∈ t.nodes, n.InPlace text := by
  have given : Gives g text (.ref g.entry) 0 g.entry (.ok (some t)) :=
    gives_iff.mpr ⟨by simp, depthLimit, h⟩
  exact given.inPlace slices (.ref (by rintro _ ⟨⟩))

/-- The printed tree of a parse falls at its line feeds into the lines of its nodes, each in its
turn, if rules have names of the notation. If every terminal takes the slice of the text where it
matches, two such trees, of whatever grammars and texts, that are printed alike have nodes that are
alike one by one, in depth, bounds, rule and kind and in the text that they cover; and even single
lines are alike only if their nodes are. -/
theorem printed_faithful (names : ∀ name ∈ g.ruleNames, Text.isName name.toList)
    (names' : ∀ name ∈ g'.ruleNames, Text.isName name.toList)
    (h : g.parse text = .ok (some t)) (h' : g'.parse text' = .ok (some t')) :
    (t.format text).toList.splitOn '\n' =
        ((t.preorder 0).map fun n => (lineOf text n).toList) ∧
      (g.TerminalsAre Terminal.TakesSlices → g'.TerminalsAre Terminal.TakesSlices →
        (t.format text = t'.format text' → t.rows text = t'.rows text') ∧
        ∀ n ∈ t.preorder 0, ∀ n' ∈ t'.preorder 0,
          lineOf text n = lineOf text' n' → row text n = row text' n') := by
  have named := named_of_parse names h
  have named' := named_of_parse names' h'
  refine ⟨splitOn_format named, fun slices slices' => ?_⟩
  have nodes : ∀ n ∈ t.preorder 0, n.2.Plain text := fun n hn =>
    have inside := mem_nodes_of_mem_preorder hn
    ⟨named _ inside, inPlace_of_parse slices h _ inside⟩
  have nodes' : ∀ n ∈ t'.preorder 0, n.2.Plain text' := fun n hn =>
    have inside := mem_nodes_of_mem_preorder hn
    ⟨named' _ inside, inPlace_of_parse slices' h' _ inside⟩
  refine ⟨fun same => ?_, fun n hn n' hn' => ?_⟩
  · have lines : (t.format text).toList.splitOn '\n' = _ := splitOn_format named
    rw [same, splitOn_format named'] at lines
    exact rows_eq_of_lines nodes nodes' lines.symm
  · exact row_eq_of_line (nodes n hn) (nodes' n' hn')

end Printed

/-- A rule for a single quote with a line feed behind it. -/
def quoteAndFeed : Grammar := ⟨"line", [("line", [.terminal (.ofText "'\n")])]⟩

/-- The tree of a single quote and a line feed. -/
def quoteAndFeedTree : Tree := .text ⟨"line", true, 0, 2⟩ "'\n"

theorem quoteAndFeed_printed_faithful :
    ((∀ name ∈ quoteAndFeed.ruleNames, Text.isName name.toList) ∧
      ∀ name ∈ Points.grammar.ruleNames, Text.isName name.toList) ∧
    (quoteAndFeed.parse #['\'', '\n'] = .ok (some quoteAndFeedTree) ∧
      Points.grammar.parse #[] = .ok (some noPointsTree)) ∧
    (quoteAndFeed.TerminalsAre Terminal.TakesSlices ∧
      Points.grammar.TerminalsAre Terminal.TakesSlices) ∧
    (quoteAndFeedTree.format #['\'', '\n']).toList.splitOn '\n' =
        ((quoteAndFeedTree.preorder 0).map fun n => (lineOf #['\'', '\n'] n).toList) ∧
      (quoteAndFeedTree.format #['\'', '\n'] = noPointsTree.format #[] →
        quoteAndFeedTree.rows #['\'', '\n'] = noPointsTree.rows #[]) ∧
      ∀ n ∈ quoteAndFeedTree.preorder 0, ∀ n' ∈ noPointsTree.preorder 0,
        lineOf #['\'', '\n'] n = lineOf #[] n' → row #['\'', '\n'] n = row #[] n' := by
  have names : ∀ name ∈ quoteAndFeed.ruleNames, Text.isName name.toList := by decide
  have names' : ∀ name ∈ Points.grammar.ruleNames, Text.isName name.toList := by decide
  have parsed : quoteAndFeed.parse #['\'', '\n'] = .ok (some quoteAndFeedTree) := by rfl
  have parsed' : Points.grammar.parse #[] = .ok (some noPointsTree) := by cbv
  have slices (g : Grammar) : g.TerminalsAre Terminal.TakesSlices :=
    g.terminalsAre_of_forall Pattern.takesSlices
  obtain ⟨lines, faithful⟩ := printed_faithful names names' parsed parsed'
  exact ⟨⟨names, names'⟩, ⟨parsed, parsed'⟩, ⟨slices _, slices _⟩, lines,
    faithful (slices _) (slices _)⟩

end Matching

end OrderedGrammar

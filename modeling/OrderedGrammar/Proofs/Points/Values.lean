import OrderedGrammar.Proofs.Points.Numerals
import OrderedGrammar.Proofs.Points.Parse
import OrderedGrammar.Proofs.Points.Renderings
import OrderedGrammar.Proofs.Transform.Runs

/-!
The transforms of point lists never fail on what matching gives. The text of a coordinate is a
numeral, and a pair has two coordinates below it, between which separators leave no value: the
numbers of the pair that its text renders (`collect_pair`).
-/

namespace OrderedGrammar.Points

open Matching Words Transform

variable {text : Text} {pos : Nat} {tag : String} {n : Tree} {vs ws : List Value}
  {s s' : Unit × Array Context}

/-- The point has the coordinates that the numerals stand for. -/
def Reads (p : Numerals) (q : Point) : Prop :=
  Decimal.read? (String.ofList p.1) = some q.x ∧ Decimal.read? (String.ofList p.2) = some q.y

/-! ### What coordinates and separators contribute -/

theorem contribution_coordinate (hr : n.isRule)
    (hn : transforms n.rule = some (stateless coordinate))
    (h : Runs (contribution transforms text n vs) s ws s') :
    ∃ x, Decimal.read? (n.source text) = some x ∧ ws = [.number x] := by
  obtain ⟨v, hv, rfl⟩ := runs_contribution hr hn h
  unfold coordinate at hv
  split at hv
  · next x hx =>
    cases hv
    exact ⟨x, hx, rfl⟩
  · cases hv

theorem contribution_null (hr : n.isRule)
    (hn : transforms n.rule = some (stateless fun _ => .ok .null))
    (h : Runs (contribution transforms text n vs) s ws s') : ws = [] := by
  obtain ⟨v, hv, rfl⟩ := runs_contribution hr hn h
  cases hv
  rfl

variable [Regex] [Symbols]

/-- A separator gives nothing. -/
theorem nothing_of_gives {rule : String}
    (hrule : transforms rule = some (stateless fun _ => .ok .null))
    (h : Gives grammar text (.ref rule) pos tag (.ok (some n)))
    (hws : Runs (contribution transforms text n vs) s ws s') : ws = [] := by
  obtain ⟨hr, rfl⟩ := isRule_of_gives h
  exact contribution_null hr hrule hws

variable [LawfulRegex]

/-- What a node of a rule covers is a word of the rule. -/
theorem source_mem {rule : String} (munches : Munches grammar (.ref rule))
    (h : Gives grammar text (.ref rule) pos tag (.ok (some n))) :
    ∃ w ∈ words rule, n.source text = String.ofList w := by
  obtain ⟨w, hw, hstop⟩ := munches.longest h
  exact ⟨w, hw.mem, source_eq h.covers.1 hw.isPrefix hstop⟩

/-- A coordinate gives the number that its text stands for, wherever it stands in a pair. -/
theorem number_of_gives {rule : String} (hrule : transforms rule = some (stateless coordinate))
    (munches : Munches grammar (.ref rule))
    (h : Gives grammar text (.ref rule) pos tag (.ok (some n)))
    (hws : Runs (contribution transforms text n vs) s ws s') :
    ∃ w ∈ words rule, Spells text pos n.stop w ∧
      ∃ x, Decimal.read? (String.ofList w) = some x ∧ ws = [.number x] := by
  obtain ⟨w, hw, spells⟩ := munches.spells h
  obtain ⟨hr, rfl⟩ := isRule_of_gives h
  obtain ⟨x, hx, rfl⟩ := contribution_coordinate hr hrule hws
  rw [source_eq h.covers.1 spells.1 spells.2] at hx
  exact ⟨w, hw, spells, x, hx, rfl⟩

variable [LawfulSymbols]

/-- What is gathered below a pair are the two numbers of the pair that its text renders. -/
theorem collect_pair (h : Gives grammar text (.ref "coordinate_pair") pos tag (.ok (some n)))
    (hv : Runs (collect transforms text n) s vs s') :
    ∃ p w q, RendersPair p w ∧ Spells text pos n.stop w ∧ Reads p q ∧
      vs = [.number q.x, .number q.y] := by
  obtain ⟨items, hitems, ts, stop, rfl, chain⟩ := Gives.chained_ref
    (show grammar.rule? "coordinate_pair" = some ([
      [.ref "coordinate", .ref "comma_wsp", .ref "coordinate"],
      [.ref "coordinate", .ref "negative_coordinate"]].map .sequence) from rfl) h
  simp only [List.mem_cons, List.not_mem_nil, or_false] at hitems
  rcases hitems with rfl | rfl
  · rcases chain with _ | ⟨ha, _ | ⟨hc, _ | ⟨hb, _ | _⟩⟩⟩
    obtain ⟨_, _, _, _, _, -, hwa, h₁, rfl⟩ := runs_collectAll_cons.mp hv
    obtain ⟨_, _, _, _, _, -, hwc, h₂, rfl⟩ := runs_collectAll_cons.mp h₁
    obtain ⟨_, _, _, _, _, -, hwb, h₃, rfl⟩ := runs_collectAll_cons.mp h₂
    obtain ⟨rfl, -⟩ := runs_pure.mp h₃
    obtain ⟨a, ha', sa, x, hx, rfl⟩ := number_of_gives rfl munches_coordinate ha hwa
    obtain ⟨c, hc', sc⟩ := munches_comma_wsp.spells hc
    obtain rfl := nothing_of_gives rfl hc hwc
    obtain ⟨b, hb', sb, y, hy, rfl⟩ := number_of_gives rfl munches_coordinate hb hwb
    rw [words_coordinate] at ha' hb'
    exact ⟨(a, b), _, ⟨x, y⟩, .separated ha' hc' hb', sa.append (sc.append sb), ⟨hx, hy⟩, rfl⟩
  · rcases chain with _ | ⟨ha, _ | ⟨hb, _ | _⟩⟩
    obtain ⟨_, _, _, _, _, -, hwa, h₁, rfl⟩ := runs_collectAll_cons.mp hv
    obtain ⟨_, _, _, _, _, -, hwb, h₂, rfl⟩ := runs_collectAll_cons.mp h₁
    obtain ⟨rfl, -⟩ := runs_pure.mp h₂
    obtain ⟨a, ha', sa, x, hx, rfl⟩ := number_of_gives rfl munches_coordinate ha hwa
    obtain ⟨b, hb', sb, y, hy, rfl⟩ := number_of_gives rfl munches_negative_coordinate hb hwb
    rw [words_coordinate] at ha'
    exact ⟨(a, b), _, ⟨x, y⟩, .adjacent ha' (negative_coordinate_le hb')
      (head?_negative_coordinate hb'), sa.append sb, ⟨hx, hy⟩, rfl⟩

/-! ### Every node has its value -/

/-- Coordinates are numerals. -/
theorem isNumeral_source {rule : String}
    (hrule : rule = "coordinate" ∨ rule = "negative_coordinate")
    (h : Gives grammar text (.ref rule) pos tag (.ok (some n))) :
    ∃ w, Decimal.IsNumeral w ∧ n.source text = String.ofList w := by
  rcases hrule with rfl | rfl
  · obtain ⟨w, hw, hs⟩ := source_mem munches_coordinate h
    rw [words_coordinate] at hw
    exact ⟨w, isNumeral_of_number hw, hs⟩
  · obtain ⟨w, hw, hs⟩ := source_mem munches_negative_coordinate h
    exact ⟨w, isNumeral_of_number (negative_coordinate_le hw), hs⟩

theorem read?_coordinate {rule : String}
    (hrule : rule = "coordinate" ∨ rule = "negative_coordinate")
    (h : Gives grammar text (.ref rule) pos tag (.ok (some n))) :
    (Decimal.read? (n.source text)).isSome := by
  obtain ⟨w, numeral, hs⟩ := isNumeral_source hrule h
  rw [hs]
  exact Decimal.read?_isSome numeral

/-- The transforms never fail. -/
theorem fine_of_gives (hr : n.isRule)
    (h : Gives grammar text (.ref n.rule) pos tag (.ok (some n))) : Fine transforms text n := by
  intro vs s s' hvs
  cases hf : transforms n.rule with
  | none => exact ⟨_, _, valueOf_of_none hf ▸ runs_pure.mpr ⟨rfl, rfl⟩⟩
  | some f =>
    rw [valueOf_of_some hr hf]
    suffices ∃ v, f () ⟨n, vs, n.source text⟩ = (.ok v, ()) from
      let ⟨v, hv⟩ := this
      ⟨v, ((), s'.2.push _), runs_call.mpr ⟨hv, rfl⟩⟩
    have read (hrule : n.rule = "coordinate" ∨ n.rule = "negative_coordinate") :
        ∃ v, stateless coordinate () ⟨n, vs, n.source text⟩ = (.ok v, ()) := by
      obtain ⟨x, hx⟩ := Option.isSome_iff_exists.mp (read?_coordinate hrule h)
      exact ⟨.number x, by simp only [stateless, coordinate, hx]⟩
    unfold transforms at hf
    split at hf
    · cases hf; exact ⟨_, rfl⟩
    · cases hf; exact ⟨_, rfl⟩
    · next hn =>
      cases hf
      rw [hn] at h
      obtain ⟨_, _, q, -, -, -, rfl⟩ := collect_pair h hvs
      exact ⟨.point q, rfl⟩
    · next hn => cases hf; exact read (Or.inl hn)
    · next hn => cases hf; exact read (Or.inr hn)
    · cases hf; exact ⟨_, rfl⟩
    · cases hf; exact ⟨_, rfl⟩
    · cases hf

/-- At no node of a match the transforms fail. -/
theorem fine_below {rule : String} (h : Gives grammar text (.ref rule) pos tag (.ok (some n))) :
    ∀ m ∈ n.nodes, m.isRule → Fine transforms text m := by
  intro m hm hr
  obtain ⟨p, tag', given⟩ := h.rule_nodes m hm hr
  exact fine_of_gives hr given

/-- The tree of a match can always be transformed. -/
theorem apply_ok_of_gives {rule : String}
    (h : Gives grammar text (.ref rule) pos tag (.ok (some n))) :
    ∃ v, (Transform.apply transforms text n).1 = .ok v :=
  apply_ok (isRule_of_gives h).1 (fine_below h)

end OrderedGrammar.Points

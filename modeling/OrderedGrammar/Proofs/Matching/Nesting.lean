import OrderedGrammar.Proofs.Grammar.LeftCalls
import OrderedGrammar.Proofs.Matching.Spans

/-!
How evaluations nest. A validator that takes nothing is nullable (`Gives.nullable`), so what is
evaluated inside of an evaluation is a part of its validator or an alternative of its rule at the
same place, or else it lies farther on in the text. If there is a supply for every evaluation that
leaves one level less for each evaluation inside, the levels are never used up (`Supplies.ends`).
Where no rule refers to itself, so many levels suffice for all texts (`nonRecursive_ends`).
-/

namespace OrderedGrammar.Matching

variable [Regex] {g : Grammar} {text : Text}

section Lawful

variable [LawfulRegex]

/-! ### What takes nothing -/

/-- A validator that matches and takes nothing is nullable. -/
theorem Gives.nullable {v : Validator} {pos : Nat} {tag : String} {o : Outcome}
    (h : Gives g text v pos tag o) : ∀ t, o = .ok (some t) → t.stop ≤ pos → g.Nullable v := by
  induction h with
  | @taken term pos tag taken h =>
    rintro _ ⟨⟩ hle
    obtain rfl : taken = "" := by simpa using hle
    exact .terminal h
  | chosen h hi _ _ ih _ =>
    rintro _ ⟨⟩ hle
    rw [← Tree.asRule_eq, Tree.stop_asRule] at hle
    exact .ref h (List.mem_of_getElem? hi) (ih _ rfl hle)
  | @sequence items pos tag ts length chain ih =>
    rintro _ ⟨⟩ hle
    have both : ∀ w ∈ items.take ts.length, g.Nullable w := Linked.items_stay
      (R := fun v p t => Gives g text v p tag (.ok (some t)) ∧ (t.stop ≤ p → g.Nullable v))
      (P := g.Nullable) (fun i t ht v hv => ⟨chain i t ht v hv, ih i t ht v hv t rfl⟩)
      (Nat.le_of_eq length) (fun v p t h => h.1.covers.2.1) hle (fun v p t h => h.2)
    rw [length, List.take_length] at both
    exact .sequence both
  | once => exact fun _ _ _ => .opt
  | noOnce => exact fun _ _ _ => .opt
  | @many inner arity pos tag ts _ ha _ grows _ _ _ _ =>
    rintro _ ⟨⟩ hle
    rcases ha with rfl | ⟨rfl, hts⟩
    · exact .many
    · -- the first round has taken something
      cases ts with
      | nil => exact absurd rfl hts
      | cons t ts =>
        have stays := Linked.stays (grows.imp fun _ _ _ => Nat.le_of_lt) hle
        have h1 := (linked_cons.mp grows).1
        have h2 := (linked_cons.mp stays).1
        omega
  | someEmpty _ _ ih =>
    rintro _ ⟨⟩ hle
    exact .some (ih _ rfl hle)
  | sequenceBroken => exact fun _ h => absurd h broken_ne_some
  | _ => rintro _ ⟨⟩

/-- The items before one that is tried where the sequence began are nullable. -/
theorem nullable_passed {depth pos : Nat} {tag : String} {items : List Validator} {ts : List Tree}
    (h : Passed (fun v p => evaluate g text depth v p tag) items pos ts)
    (hl : ts.length ≤ items.length) (hle : stopAfter pos ts ≤ pos) :
    ∀ v ∈ items.take ts.length, g.Nullable v :=
  Linked.items_stay (R := fun v p t => evaluate g text depth v p tag = .ok (some t)) h hl
    (fun _ _ _ hv => (evaluate_bounds hv).2.1) hle
    (fun _ _ _ hv => (gives_iff.mpr ⟨by simp, depth, hv⟩ : Gives ..).nullable _ rfl)

/-! ### Supplies of levels -/

/-- A quantified validator ends in the error of the round that does. The rounds before it have taken
something; there is no round before the only one of an optional validator. -/
theorem quantified_eq_error {inner : Validator} {arity : Arity} {depth pos : Nat} {tag : String}
    {e : EvalError}
    (h : evaluate g text (depth + 1) (.quantified inner arity) pos tag = .error e) :
    ∃ ts, (arity = .zeroOrOne → ts = []) ∧
      Rounds (fun p => evaluate g text depth inner p tag) pos ts ∧
      evaluate g text depth inner (stopAfter pos ts) tag = .error e := by
  by_cases hh : Halts (fun p => evaluate g text depth inner p tag) pos
  · have ends : ∃ o, evaluate g text (depth + 1) (.quantified inner arity) pos tag = .ok o := by
      cases arity with
      | zeroOrOne => rw [evaluate_opt]; rcases hh with hn | ⟨t, ht, -⟩ <;> simp_all [Except.map]
      | zeroOrMore => rw [evaluate_rounds (Or.inl rfl), iterate_halts hh]; exact ⟨_, rfl⟩
      | oneOrMore =>
        rw [evaluate]
        rcases hh with hn | ⟨t, ht, hle⟩
        · rw [repetition_required_none hn]; exact ⟨_, rfl⟩
        · rw [repetition_required_empty ht hle]; exact ⟨_, rfl⟩
    obtain ⟨o, ho⟩ := ends
    cases ho.symm.trans h
  · by_cases ha : arity = .zeroOrOne
    · subst ha
      refine ⟨[], fun _ => rfl, rounds_nil, ?_⟩
      rw [evaluate_opt] at h
      revert h
      rw [stopAfter_nil]
      cases evaluate g text depth inner pos tag <;> simp [Except.map]
    · rw [evaluate_rounds (by cases arity <;> simp_all)] at h
      have failed : iterate (fun p => evaluate g text depth inner p tag) (text.size + 2) pos =
          .error e := by
        revert h
        cases iterate (fun p => evaluate g text depth inner p tag) (text.size + 2) pos <;>
          simp [Except.map]
      obtain ⟨ts, rounds, last⟩ := (iterate_eq_error_iff (bounded_evaluate depth inner tag)
        (by omega) (by omega : text.size < pos + (text.size + 2))).mp failed
      exact ⟨ts, fun once => absurd once ha, rounds, last⟩

/-- A family of evaluations, told by their levels, validators and offsets, that holds with each
evaluation those inside of it, with one level less. -/
structure Supplies (g : Grammar) (text : Text) (F : Nat → Validator → Nat → Prop) : Prop where
  positive : ∀ {v pos}, ¬ F 0 v pos
  alternative : ∀ {depth name alternatives v pos}, F (depth + 1) (.ref name) pos →
    g.rule? name = some alternatives → v ∈ alternatives → F depth v pos
  inner : ∀ {depth v arity pos}, F (depth + 1) (.quantified v arity) pos → F depth v pos
  /-- An item is evaluated where the sequence begins only if all items before it are nullable. -/
  item : ∀ {depth items i v pos}, F (depth + 1) (.sequence items) pos → items[i]? = some v →
    (∀ w ∈ items.take i, g.Nullable w) → F depth v pos
  innerLater : ∀ {depth v arity pos p}, F (depth + 1) (.quantified v arity) pos → pos < p →
    p ≤ text.size → F depth v p
  itemLater : ∀ {depth items v pos p}, F (depth + 1) (.sequence items) pos → v ∈ items → pos < p →
    p ≤ text.size → F depth v p

/-- Levels that are supplied are never used up. -/
theorem Supplies.ends {F : Nat → Validator → Nat → Prop} (hF : Supplies g text F) {depth : Nat}
    {v : Validator} {pos : Nat} {tag : String} (h : F depth v pos) :
    evaluate g text depth v pos tag ≠ .error .depthExceeded := by
  induction depth generalizing v pos tag with
  | zero => exact absurd h hF.positive
  | succ depth ih =>
    intro he
    -- parts that have been taken end where they began, or farther on in the text
    have moves {ts : List Tree} (hl : Linked (fun _ p t => Covers text p t) pos ts) :
        stopAfter pos ts = pos ∨ pos < stopAfter pos ts ∧ stopAfter pos ts ≤ text.size := by
      have : Covers text pos (listNode tag pos ts) := covers_listNode hl
      simp only [Covers, listNode_eq, Tree.stop_list] at this
      omega
    cases v with
    | terminal t => rw [evaluate] at he; cases he
    | ref name =>
      cases hr : g.rule? name with
      | none => rw [evaluate_ref_of_none hr] at he; cases he
      | some alternatives =>
        rw [evaluate_ref hr] at he
        obtain ⟨i, v, hi, hv, -⟩ := (firstMatch_eq_iff (by simp [broken])).mp
          (map_eq_broken_iff (b := some .depthExceeded).mp he)
        exact ih (hF.alternative h hr (List.mem_of_getElem? hi)) hv
    | quantified inner arity =>
      obtain ⟨ts, -, rounds, hlast⟩ := quantified_eq_error he
      rcases moves (rounds.imp fun _ _ _ ht => evaluate_bounds ht.1) with hstay | ⟨hlt, hle⟩
      · rw [hstay] at hlast
        exact ih (hF.inner h) hlast
      · exact ih (hF.innerLater h hlt hle) hlast
    | sequence items =>
      rw [evaluate_sequence] at he
      obtain ⟨ts, v, hv, hp, hlast⟩ :=
        chain_eq_broken_iff.mp (map_eq_broken_iff (b := some .depthExceeded).mp he)
      have hlen : ts.length ≤ items.length :=
        Nat.le_of_lt (List.getElem?_eq_some_iff.mp hv).1
      have hl := Linked.items
        (R := fun v p t => evaluate g text depth v p tag = .ok (some t)) hp hlen
      have spans : Linked (fun _ p t => Covers text p t) pos ts := by
        refine hl.imp fun _ p t ht => ?_
        obtain ⟨w, -, hw⟩ := ht
        exact evaluate_bounds hw
      rcases moves spans with hstay | ⟨hlt, hle⟩
      · rw [hstay] at hlast
        exact ih (hF.item h hv (nullable_passed hp hlen (Nat.le_of_eq hstay))) hlast
      · exact ih (hF.itemLater h (List.mem_of_getElem? hv) hlt hle) hlast
    | foreign x => rw [evaluate] at he; cases he

end Lawful

/-! ### Levels by rank and height -/

/-- The levels that suffice for rules below a rank and for validators of a height, where no
validator is higher than `top`. -/
def levels (top rank height : Nat) : Nat := rank * (top + 1) + height

omit [Regex] in
/-- An alternative of a rule is paid for by the lower rank of the rules that it refers to. -/
theorem levels_alternative {top rank lower height depth : Nat} (hrank : lower < rank)
    (low : height ≤ top) (room : levels top rank 1 ≤ depth + 1) :
    levels top lower height ≤ depth := by
  have hmul : (lower + 1) * (top + 1) ≤ rank * (top + 1) := Nat.mul_le_mul_right _ hrank
  rw [Nat.succ_mul] at hmul
  unfold levels at room ⊢
  omega

/-- An evaluation has levels enough for all that its validator refers to, wherever it is. -/
structure FitsAnywhere (g : Grammar) (top depth : Nat) (v : Validator) (rank : Nat) : Prop where
  low : v.height ≤ top
  calls : ∀ name ∈ g.ruleNames, name ∈ v.mentions → g.rank g.Calls name < rank
  room : levels top rank v.height ≤ depth

namespace FitsAnywhere

variable {top rank depth : Nat} {v : Validator}

theorem inner {arity : Arity} (h : FitsAnywhere g top (depth + 1) (.quantified v arity) rank) :
    FitsAnywhere g top depth v rank := by
  obtain ⟨low, calls, room⟩ := h
  simp only [levels, Validator.height] at low room
  exact ⟨by omega, calls, by unfold levels; omega⟩

theorem item {items : List Validator} (h : FitsAnywhere g top (depth + 1) (.sequence items) rank)
    (hv : v ∈ items) : FitsAnywhere g top depth v rank := by
  obtain ⟨low, calls, room⟩ := h
  have := Validator.height_le_heightAll hv
  simp only [levels, Validator.height] at low room
  exact ⟨by omega, fun name hn hm => calls name hn (Validator.mem_mentionsAll hm hv),
    by unfold levels; omega⟩

theorem alternative (acyclic : g.NonRecursive) (hg : g.height ≤ top) {name : String}
    {alternatives : List Validator} (h : FitsAnywhere g top (depth + 1) (.ref name) rank)
    (hr : g.rule? name = some alternatives) (hv : v ∈ alternatives) :
    FitsAnywhere g top depth v (g.rank g.Calls name) := by
  have hrank := h.calls name (Grammar.mem_ruleNames_of_rule? hr) (List.mem_singleton_self name)
  have low : v.height ≤ top := (Grammar.height_le_of_rule? hr hv).trans hg
  refine ⟨low, fun callee hn hm => ?_, levels_alternative hrank low h.room⟩
  exact Grammar.rank_lt acyclic ⟨alternatives, v, hr, hv, hm⟩ hn

end FitsAnywhere

/-- If no rule refers to itself, evaluations nest no deeper than the grammar has room for, whatever
the text. -/
theorem nonRecursive_ends [LawfulRegex] (acyclic : g.NonRecursive) {top depth : Nat}
    (hg : g.height ≤ top) {v : Validator} (hv : v.height ≤ top)
    (room : levels top (g.ruleNames.length + 1) v.height ≤ depth) {pos : Nat} {tag : String} :
    evaluate g text depth v pos tag ≠ .error .depthExceeded := by
  have supplies : Supplies g text fun depth v _ => ∃ rank, FitsAnywhere g top depth v rank :=
    { positive := by
        rintro v pos ⟨rank, h⟩
        have := v.height_pos
        have := h.room
        unfold levels at this
        omega
      alternative := fun ⟨_, h⟩ hr hv => ⟨_, h.alternative acyclic hg hr hv⟩
      inner := fun ⟨rank, h⟩ => ⟨rank, h.inner⟩
      item := fun ⟨rank, h⟩ hi _ => ⟨rank, h.item (List.mem_of_getElem? hi)⟩
      innerLater := fun ⟨rank, h⟩ _ _ => ⟨rank, h.inner⟩
      itemLater := fun ⟨rank, h⟩ hv _ _ => ⟨rank, h.item hv⟩ }
  exact supplies.ends ⟨_, hv, fun name _ _ => Nat.lt_succ_of_le (Grammar.rank_le g name), room⟩

end OrderedGrammar.Matching

import OrderedGrammar.Proofs.Notation.Derivation
import OrderedGrammar.Proofs.Notation.Scan

/-!
The reader accepts exactly the notation, and returns what it denotes. `resume L s d` is the outcome
of a source of length `L` when the reader is in the draft `d` and the characters `s` are left. A
derivation moves the outcome from the text before it to the text after it (`Items.resume_eq`); and
where the outcome is a grammar, there is a derivation to move along (`exists_items`).
-/

namespace OrderedGrammar

/-- Two steps succeed if the first one does and the second one does with its result. -/
theorem bind_eq_ok {ε α β : Type} {x : Except ε α} {f : α → Except ε β} {b : β} :
    (x >>= f) = .ok b ↔ ∃ a, x = .ok a ∧ f a = .ok b := by
  cases x with
  | error e => simp [bind, Except.bind]
  | ok a => simp [bind, Except.bind]

theorem Arity.ofSign?_eq_some {c : Char} {arity : Arity} :
    Arity.ofSign? c = some arity ↔ c = arity.sign := by
  constructor
  · intro h
    unfold Arity.ofSign? at h
    split at h <;> cases h <;> rfl
  · rintro rfl
    cases arity <;> rfl

namespace Notation

open Lexer

variable [Regex]

/-- The rule after more items, with the place where a suffix may follow. -/
def OpenRule.after (r : OpenRule) (vs : List Validator) (stop : Option Nat) : OpenRule :=
  { r with items := vs.reverse ++ r.items, suffixAt := stop }

@[simp] theorem OpenRule.after_after (r : OpenRule) (vs ws : List Validator) (m n : Option Nat) :
    (r.after vs m).after ws n = r.after (vs ++ ws) n := by
  simp [OpenRule.after]

/-- The rule with a group that has just been opened. -/
def OpenRule.opened (r : OpenRule) : OpenRule :=
  { r with outer := r.items :: r.outer, items := [], suffixAt := none }

namespace Draft

/-- The draft in the middle of a rule. -/
def inside (d : Draft) (r : OpenRule) : Draft := { d with phase := .body r }

variable {d d' : Draft} {r : OpenRule} {t : Token}

/-! ### Steps that succeed -/

/-- Going on from an alternative that is closed. -/
theorem closeAlternative_bind_eq_ok {n : Nat} {f : List Validator → Step} :
    (closeAlternative r n >>= f) = .ok d' ↔
      r.items ≠ [] ∧ f (ofItems r.items.reverse :: r.alternatives) = .ok d' := by
  unfold closeAlternative
  cases r.items with
  | nil => simp [bind, Except.bind]
  | cons v vs => simp [bind, Except.bind]

theorem closeRule_eq_ok : d.closeRule r t = .ok d' ↔
    r.outer = [] ∧ r.items ≠ [] ∧ d.rules.lookup r.name = none ∧
      d' = ⟨d.rules ++ [(r.name, (ofItems r.items.reverse :: r.alternatives).reverse)],
        d.entry, .between⟩ := by
  unfold closeRule
  rcases r.outer with _ | ⟨_, _⟩
  · simp only [List.isEmpty_nil, Bool.not_true, Bool.false_eq_true, if_false,
      closeAlternative_bind_eq_ok, true_and]
    cases d.rules.lookup r.name <;> simp [eq_comm]
  · simp

theorem nextAlternative_eq_ok : d.nextAlternative r t = .ok d' ↔
    r.outer = [] ∧ r.items ≠ [] ∧
      d' = d.inside { r with
        alternatives := ofItems r.items.reverse :: r.alternatives
        items := []
        suffixAt := none } := by
  unfold nextAlternative inside
  rcases r.outer with _ | ⟨_, _⟩
  · simp only [List.isEmpty_nil, Bool.not_true, Bool.false_eq_true, if_false,
      closeAlternative_bind_eq_ok, true_and]
    simp [eq_comm]
  · simp

theorem closeGroup_eq_ok : d.closeGroup r t = .ok d' ↔
    ∃ items outer, r.outer = items :: outer ∧ r.items ≠ [] ∧
      d' = d.inside
        (OpenRule.after { r with outer, items } [ofItems r.items.reverse] (some t.stop)) := by
  unfold closeGroup closeAlternative addItem inside OpenRule.after
  rcases r.outer with _ | ⟨items, outer⟩
  · cases r.items <;>
      simp [bind, Except.bind, discard, Functor.discard, Functor.mapConst, Except.map]
  · cases r.items with
    | nil => simp
    | cons v vs => simp [eq_comm]

theorem applySuffix_eq_ok {arity : Arity} : d.applySuffix r t arity = .ok d' ↔
    ∃ v items, r.items = v :: items ∧ r.suffixAt = some t.start ∧
      d' = d.inside (OpenRule.after { r with items } [.quantified v arity] none) := by
  unfold applySuffix inside OpenRule.after
  cases r.items with
  | nil => simp
  | cons v vs => by_cases h : r.suffixAt = some t.start <;> simp [h, eq_comm]

/-! ### Tokens inside a rule -/

theorem addTerminal_eq_ok {made : Except TerminalError Terminal} :
    (d.inside r).addTerminal r made t = .ok d' ↔ ∃ terminal, made = .ok terminal ∧
      d' = d.inside (r.after [.terminal terminal] (some t.stop)) := by
  cases made with
  | error e => simp [addTerminal]
  | ok terminal =>
    simp only [Except.ok.injEq, exists_eq_left']
    exact ⟨fun h => (Except.ok.inj h).symm, fun h => congrArg Except.ok h.symm⟩

theorem step_regex {pattern flags : List Char} (ht : t.lexeme = .regex pattern flags) :
    (d.inside r).step t = (d.inside r).addTerminal r
      (Terminal.make (String.ofList pattern) (String.ofList flags)) t := by
  simp [step, inside, bodyToken, ht]

theorem step_literal {s : List Char} (ht : t.lexeme = .literal s) :
    (d.inside r).step t =
      (d.inside r).addTerminal r (Terminal.literal (String.ofList s)) t := by
  simp [step, inside, bodyToken, ht]

theorem step_semicolon (ht : t.lexeme = .mark) (hhead : t.head = ';') :
    (d.inside r).step t = (d.inside r).closeRule r t := by
  obtain ⟨_, _, _, _⟩ := t
  subst ht hhead
  rfl

theorem step_bar (ht : t.lexeme = .mark) (hhead : t.head = '|') :
    (d.inside r).step t = (d.inside r).nextAlternative r t := by
  obtain ⟨_, _, _, _⟩ := t
  subst ht hhead
  rfl

theorem step_closing (ht : t.lexeme = .mark) (hhead : t.head = ')') :
    (d.inside r).step t = (d.inside r).closeGroup r t := by
  obtain ⟨_, _, _, _⟩ := t
  subst ht hhead
  rfl

theorem step_suffix {arity : Arity} (ht : t.lexeme = .mark) (hhead : t.head = arity.sign) :
    (d.inside r).step t = (d.inside r).applySuffix r t arity := by
  obtain ⟨_, _, _, _⟩ := t
  subst ht hhead
  cases arity <;> rfl

end Draft

/-! ### From token to token -/

/-- A source is taken token by token. -/
theorem read_eq (src : String) : read src =
    ((tokens src.toList).foldlM Draft.step .start >>= fun d => d.finish src.toList.length) :=
  rfl

/-- The outcome of a source of length `L` when the reader is in the draft `d` and `s` is left. -/
def resume (L : Nat) (s : List Char) (d : Draft) : Except Error Grammar := do
  (← (scan .gap (L - s.length) s).foldlM Draft.step d).finish L

theorem read_eq_resume (src : String) :
    read src = resume src.toList.length src.toList .start := by
  unfold resume
  rw [Nat.sub_self]
  rfl

variable {L : Nat} {s r : List Char} {d : Draft} {R : OpenRule} {g : Grammar}

theorem resume_gap (h : Gap s r) (hs : s.length ≤ L) : resume L s d = resume L r d := by
  have := h.length_le
  rw [resume, scan_gap h (m := L - r.length) (by omega)]
  rfl

theorem resume_end : resume L [] d = d.finish L := rfl

theorem resume_token {l : Lexeme} (h : Begins s l r) (hs : s.length ≤ L) :
    resume L s d =
      d.step ⟨s.headD ' ', L - s.length, L - r.length, l⟩ >>= fun d' => resume L r d' := by
  have := h.length_lt
  rw [resume, scan_begins h (m := L - r.length) (by omega), List.foldlM_cons, bind_assoc]
  rfl

theorem resume_step {l : Lexeme} {d' : Draft} (h : Begins s l r) (hs : s.length ≤ L)
    (step : d.step ⟨s.headD ' ', L - s.length, L - r.length, l⟩ = .ok d') :
    resume L s d = resume L r d' := by
  rw [resume_token h hs, step]
  rfl

/-- A token that cannot be used is refused whatever the reader waits for. -/
theorem Draft.step_unusable {t : Token} (h : Unusable t) : ∃ e, d.step t = .error e := by
  obtain ⟨head, start, stop, l⟩ := t
  rcases h with h | ⟨e, h⟩
  · obtain rfl : l = .openComment := h
    exact ⟨_, rfl⟩
  · obtain rfl : l = .malformed e := h
    obtain ⟨rules, entry, phase⟩ := d
    cases phase <;> exact ⟨_, rfl⟩

/-- Where the outcome is a grammar, what is left can be used. -/
theorem usable_of_resume (h : resume L s d = .ok g) : Usable s := by
  rcases usable_or_fruitless s with usable | fruitless
  · exact usable
  · obtain ⟨t, ht, hts⟩ := fruitless (L - s.length)
    obtain ⟨e, he⟩ := Draft.step_unusable (d := d) ht
    rw [resume, hts, List.foldlM_cons, he] at h
    cases h

/-- The token that comes next is taken if the outcome is a grammar. -/
theorem step_of_resume {l : Lexeme} (h : resume L s d = .ok g) (hb : Begins s l r)
    (hs : s.length ≤ L) : ∃ d', d.step ⟨s.headD ' ', L - s.length, L - r.length, l⟩ = .ok d' ∧
      resume L r d' = .ok g := by
  rw [resume_token hb hs] at h
  exact bind_eq_ok.mp h

/-- A source may end between declarations if it has a rule. -/
theorem Draft.finish_eq_ok : d.finish L = .ok g ↔
    d.phase = .between ∧ ∃ first others, d.rules = first :: others ∧
      g = ⟨d.entry.getD first.1, d.rules⟩ := by
  obtain ⟨rules, entry, phase⟩ := d
  cases phase with
  | between => cases rules <;> simp [finish, eq_comm]
  | body r =>
    simp only [finish]
    split_ifs <;> simp
  | _ => simp [finish]

/-- In the middle of a declaration the source cannot end. -/
theorem finish_open (hd : ∀ rules entry, d ≠ ⟨rules, entry, .between⟩) :
    d.finish L ≠ .ok g := by
  obtain ⟨rules, entry, phase⟩ := d
  intro ok
  obtain ⟨rfl, -⟩ := Draft.finish_eq_ok.mp ok
  exact hd rules entry rfl

/-- A token comes next where a declaration has been begun. -/
theorem exists_token (h : resume L s d = .ok g) (hs : s.length ≤ L)
    (hd : ∀ rules entry, d ≠ ⟨rules, entry, .between⟩) :
    ∃ s' l r d', Gap s s' ∧ Begins s' l r ∧
      d.step ⟨s'.headD ' ', L - s'.length, L - r.length, l⟩ = .ok d' ∧ resume L r d' = .ok g := by
  rcases usable_of_resume h with gap | ⟨s', l, r, gap, token⟩
  · rw [resume_gap gap hs, resume_end] at h
    exact absurd h (finish_open hd)
  · have hs' := gap.length_le
    rw [resume_gap gap hs] at h
    obtain ⟨d', step, next⟩ := step_of_resume h token (by omega)
    exact ⟨s', l, r, d', gap, token, step, next⟩

/-! ### Along a derivation -/

/-- A token that becomes an item. -/
theorem resume_item {l : Lexeme} {v : Validator} (h : Begins s l r) (hs : s.length ≤ L)
    (step : ∀ t : Token, t.lexeme = l →
      (d.inside R).step t = .ok (d.inside (R.after [v] (some t.stop)))) :
    resume L s (d.inside R) = resume L r (d.inside (R.after [v] (some (L - r.length)))) :=
  resume_step h hs (step _ rfl)

theorem resume_mark {c : Char} (hc : isMark c) (hs : (c :: r).length ≤ L) {d' : Draft}
    (step : ∀ t : Token, t.lexeme = .mark → t.head = c → t.start = L - (c :: r).length →
      t.stop = L - r.length → d.step t = .ok d') :
    resume L (c :: r) d = resume L r d' :=
  resume_step (.mark hc) hs (step _ rfl rfl rfl rfl)

section Derivations

variable {L : Nat}

mutual

/-- A primary becomes an item, after which a suffix may stand. -/
theorem Primary.resume_eq {s r : List Char} {v : Validator} {d : Draft} {R : OpenRule}
    (h : Primary s v r) (hs : s.length ≤ L) :
    resume L s (d.inside R) = resume L r (d.inside (R.after [v] (some (L - r.length)))) := by
  match h with
  | .ref h => exact resume_item h hs (by rintro ⟨_, _, _, _⟩ rfl; rfl)
  | .regex h ht =>
    refine resume_item h hs fun t hl => ?_
    rw [Draft.step_regex hl]
    exact Draft.addTerminal_eq_ok.mpr ⟨_, ht, rfl⟩
  | .literal h ht =>
    refine resume_item h hs fun t hl => ?_
    rw [Draft.step_literal hl]
    exact Draft.addTerminal_eq_ok.mpr ⟨_, ht, rfl⟩
  | @Primary.group _ _ vs mid _ h hne close =>
    have opened : resume L _ (d.inside R) = resume L _ (d.inside R.opened) :=
      resume_mark rfl hs (by rintro ⟨_, _, _, _⟩ rfl rfl _ _; rfl)
    have hmid := h.length_le
    have hr := close.length_le
    simp only [List.length_cons] at hs hr
    obtain ⟨stop, items⟩ := h.resume_eq (d := d) (R := R.opened) (by omega)
    rw [opened, items, resume_gap close (by omega)]
    refine resume_mark rfl (by simp only [List.length_cons]; omega) ?_
    intro t ht hhead _ hstop
    rw [Draft.step_closing ht hhead]
    refine Draft.closeGroup_eq_ok.mpr ⟨R.items, R.outer, rfl, ?_, ?_⟩
    · simpa [OpenRule.after, OpenRule.opened] using hne
    · simp [OpenRule.after, OpenRule.opened, Draft.inside, hstop]

theorem Item.resume_eq {s r : List Char} {v : Validator} {d : Draft} {R : OpenRule}
    (h : Item s v r) (hs : s.length ≤ L) :
    ∃ stop, resume L s (d.inside R) = resume L r (d.inside (R.after [v] stop)) := by
  match h with
  | .bare h => exact ⟨_, h.resume_eq hs⟩
  | @Item.suffixed _ _ v _ arity h =>
    have hr := h.length_lt
    refine ⟨none, (h.resume_eq hs).trans (resume_mark ?_ (by omega) ?_)⟩
    · cases arity <;> rfl
    · rintro t ht hhead hstart _
      rw [Draft.step_suffix ht hhead]
      exact Draft.applySuffix_eq_ok.mpr ⟨v, R.items, rfl, by rw [hstart]; rfl, rfl⟩

/-- Items join the items before them. -/
theorem Items.resume_eq {s r : List Char} {vs : List Validator} {d : Draft} {R : OpenRule}
    (h : Items s vs r) (hs : s.length ≤ L) :
    ∃ stop, resume L s (d.inside R) = resume L r (d.inside (R.after vs stop)) := by
  match h with
  | .nil => exact ⟨R.suffixAt, rfl⟩
  | .cons g h hs' =>
    have hg := g.length_le
    have hr := h.length_lt
    obtain ⟨stop, first⟩ := h.resume_eq (d := d) (R := R) (by omega)
    obtain ⟨stop', others⟩ := hs'.resume_eq (d := d) (R := R.after [_] stop) (by omega)
    refine ⟨stop', ?_⟩
    rw [resume_gap g hs, first, others, OpenRule.after_after, List.singleton_append]

end

end Derivations

/-! ### Back to a derivation -/

omit [Regex] in
theorem Gap.eq_or_lt (h : Gap s r) : r = s ∨ r.length < s.length := by
  cases h with
  | done => exact Or.inl rfl
  | more h hr => exact Or.inr (Nat.lt_of_le_of_lt hr.length_le h.length_lt)

/-- Only a suffix asks where the last item ends. -/
theorem Draft.step_after {vs : List Validator} {t : Token} (m n : Option Nat)
    (ht : t.lexeme = .mark → Arity.ofSign? t.head = none) :
    (d.inside (R.after vs m)).step t = (d.inside (R.after vs n)).step t := by
  obtain ⟨head, start, stop, l⟩ := t
  cases l with
  | mark =>
    have none := ht rfl
    simp only [Draft.step, Draft.inside, Draft.bodyToken, Draft.bodyMark, none]
    rfl
  | _ => rfl

/-- Without a suffix it does not matter that one might have followed. -/
theorem resume_noSuffix {vs : List Validator} (hr : r.length ≤ L)
    (none : ∀ (arity : Arity) (t : List Char), r ≠ arity.sign :: t)
    (h : resume L r (d.inside (R.after vs (some (L - r.length)))) = .ok g) :
    resume L r (d.inside (R.after vs .none)) = .ok g := by
  rcases usable_of_resume h with gap | ⟨s', l, r', gap, token⟩
  · rw [resume_gap gap hr] at h ⊢
    exact h
  · have hs' := gap.length_le
    rw [resume_gap gap hr] at h ⊢
    by_cases suffix : ∃ arity : Arity, l = .mark ∧ Arity.ofSign? (s'.headD ' ') = some arity
    · obtain ⟨arity, rfl, sign⟩ := suffix
      obtain ⟨t, rfl⟩ : ∃ t, s' = arity.sign :: t := by
        cases s' with
        | nil => cases sign
        | cons c t => exact ⟨t, congrArg (· :: t) (Arity.ofSign?_eq_some.mp sign)⟩
      have behind := gap.eq_or_lt.resolve_left fun same => none arity t same.symm
      obtain ⟨d', hd', -⟩ := step_of_resume h token (by omega)
      rw [Draft.step_suffix rfl rfl] at hd'
      obtain ⟨_, _, -, place, -⟩ := Draft.applySuffix_eq_ok.mp hd'
      have same : L - r.length = L - (arity.sign :: t).length := Option.some.inj place
      omega
    · rw [resume_token token (by omega)] at h ⊢
      rwa [Draft.step_after _ .none] at h
      intro mark
      by_contra sign
      exact suffix ((Option.ne_none_iff_exists'.mp sign).imp fun _ => And.intro mark)

/-- A primary and its suffix, if one follows, are an item. -/
theorem exists_item {v : Validator} (primary : Primary s v r) (hr : r.length ≤ L)
    (h : resume L r (d.inside (R.after [v] (some (L - r.length)))) = .ok g) :
    ∃ v' r', Item s v' r' ∧ resume L r' (d.inside (R.after [v'] none)) = .ok g := by
  by_cases suffix : ∃ (arity : Arity) (t : List Char), r = arity.sign :: t
  · obtain ⟨arity, t, rfl⟩ := suffix
    refine ⟨_, t, .suffixed primary, ?_⟩
    rwa [resume_mark (by cases arity <;> rfl) hr] at h
    intro t ht hhead hstart _
    rw [Draft.step_suffix ht hhead]
    exact Draft.applySuffix_eq_ok.mpr ⟨v, R.items, rfl, by rw [hstart]; rfl, rfl⟩
  · refine ⟨v, r, .bare primary, resume_noSuffix hr (fun arity t same => ?_) h⟩
    exact suffix ⟨arity, t, same⟩

/-- A mark where no suffix can follow opens a group or ends the items. -/
theorem exists_mark {c : Char} {t : Token} {d' : Draft} (hR : R.suffixAt = none)
    (ht : t.lexeme = .mark) (hhead : t.head = c) (h : (d.inside R).step t = .ok d') :
    c = '(' ∧ d' = d.inside R.opened ∨ c = ';' ∧ (d.inside R).closeRule R t = .ok d' ∨
      c = '|' ∧ (d.inside R).nextAlternative R t = .ok d' ∨
      c = ')' ∧ (d.inside R).closeGroup R t = .ok d' := by
  obtain ⟨head, start, stop, l⟩ := t
  subst ht hhead
  simp only [Draft.step, Draft.inside, Draft.bodyToken, Draft.bodyMark, reduceCtorEq, if_false]
    at h
  split_ifs at h with semicolon bar closing opening
  · exact Or.inr (Or.inl ⟨semicolon, h⟩)
  · exact Or.inr (Or.inr (Or.inl ⟨bar, h⟩))
  · exact Or.inr (Or.inr (Or.inr ⟨closing, h⟩))
  · exact Or.inl ⟨opening, (Except.ok.inj h).symm⟩
  · split at h
    · obtain ⟨_, _, -, place, -⟩ := Draft.applySuffix_eq_ok.mp h
      rw [hR] at place
      cases place
    · cases h

/-- What ends the items of an alternative or a group. -/
def EndsItems (c : Char) : Prop := c = ';' ∨ c = '|' ∨ c = ')'

/-- The items of a group end with its closing parenthesis, and there are some. -/
theorem closes_group {c : Char} {vs : List Validator} (ends : EndsItems c)
    (hr : (c :: r).length ≤ L)
    (h : resume L (c :: r) (d.inside (R.opened.after vs none)) = .ok g) :
    c = ')' ∧ vs ≠ [] ∧
      resume L r (d.inside (R.after [ofItems vs] (some (L - r.length)))) = .ok g := by
  have mark : isMark c := by rcases ends with rfl | rfl | rfl <;> rfl
  obtain ⟨d', step, next⟩ := step_of_resume h (.mark mark) hr
  rcases exists_mark rfl rfl rfl step with ⟨rfl, -⟩ | ⟨-, step⟩ | ⟨-, step⟩ | ⟨rfl, step⟩
  · rcases ends with h | h | h <;> cases h
  · cases (Draft.closeRule_eq_ok.mp step).1
  · cases (Draft.nextAlternative_eq_ok.mp step).1
  · obtain ⟨_, _, outer, hne, rfl⟩ := Draft.closeGroup_eq_ok.mp step
    obtain ⟨rfl, rfl⟩ := List.cons.inj outer
    refine ⟨rfl, by simpa [OpenRule.after, OpenRule.opened] using hne, ?_⟩
    simpa [OpenRule.after, OpenRule.opened, Draft.inside] using next

/-- Where the outcome is a grammar, items come next, and then a mark that ends them. -/
theorem exists_items (hs : s.length ≤ L) (hR : R.suffixAt = none)
    (h : resume L s (d.inside R) = .ok g) :
    ∃ vs r c r', Items s vs r ∧ Gap r (c :: r') ∧ EndsItems c ∧
      resume L (c :: r') (d.inside (R.after vs none)) = .ok g := by
  induction hlen : s.length using Nat.strong_induction_on generalizing s R with
  | _ len ih =>
    obtain ⟨s', l, r, d', gap, token, step, next⟩ :=
      exists_token h hs (by rintro _ _ ⟨⟩)
    have hs' := gap.length_le
    have hr := token.length_lt
    -- what comes after an item is shorter, whichever token the item begins with
    have onward {v : Validator} {q : List Char} (primary : Primary s' v q)
        (h : resume L q (d.inside (R.after [v] (some (L - q.length)))) = .ok g) :
        ∃ vs r c r', Items s vs r ∧ Gap r (c :: r') ∧ EndsItems c ∧
          resume L (c :: r') (d.inside (R.after vs none)) = .ok g := by
      have hq := primary.length_lt
      obtain ⟨w, p, item, h⟩ := exists_item primary (by omega) h
      have hp := item.length_lt
      obtain ⟨ws, r, c, r', items, hc, ends, h⟩ := ih _ (by omega) (by omega) rfl h rfl
      exact ⟨w :: ws, r, c, r', .cons gap item items, hc, ends, by simpa using h⟩
    have tokens := token
    cases token with
    | @name w r =>
      obtain rfl := Except.ok.inj step
      exact onward (.ref tokens) next
    | @regex pattern flags r =>
      rw [Draft.step_regex rfl] at step
      obtain ⟨terminal, made, rfl⟩ := Draft.addTerminal_eq_ok.mp step
      exact onward (.regex tokens made) next
    | @literal q spelling text r =>
      rw [Draft.step_literal rfl] at step
      obtain ⟨terminal, made, rfl⟩ := Draft.addTerminal_eq_ok.mp step
      exact onward (.literal tokens made) next
    | @mark c r hc =>
      have here : R.after [] none = R := by
        obtain ⟨_, _, _, _, _, _⟩ := R
        obtain rfl : _ = none := hR
        rfl
      have done (ends : EndsItems c) : ∃ vs r c r', Items s vs r ∧ Gap r (c :: r') ∧ EndsItems c ∧
          resume L (c :: r') (d.inside (R.after vs none)) = .ok g :=
        ⟨[], s, c, r, .nil, gap, ends, by rwa [here, ← resume_gap gap hs]⟩
      rcases exists_mark hR rfl rfl step with ⟨rfl, rfl⟩ | ⟨rfl, -⟩ | ⟨rfl, -⟩ | ⟨rfl, -⟩
      · simp only [List.length_cons] at hs'
        obtain ⟨vs, mid, c, q, items, close, ends, h⟩ := ih _ (by omega) (by omega) rfl next rfl
        have hmid := items.length_le
        have hq := close.length_le
        obtain ⟨rfl, hne, h⟩ := closes_group ends (by omega) h
        exact onward (.group items hne close) h
      · exact done (Or.inl rfl)
      · exact done (Or.inr (Or.inl rfl))
      · exact done (Or.inr (Or.inr rfl))

/-! ### Alternatives -/

/-- A rule whose alternatives before are read, up to the items of the next one. -/
def OpenRule.upTo (name : String) (offset : Nat) (before : List Validator) : OpenRule :=
  ⟨name, offset, before, [], [], none⟩

/-- Alternatives up to the semicolon complete the rule, if there is none of its name. -/
theorem Alternatives.resume_eq {alts : List Validator} {name : String} {offset : Nat}
    {before : List Validator} (h : Alternatives s alts r) (hs : s.length ≤ L)
    (new : d.rules.lookup name = none) :
    resume L s (d.inside (.upTo name offset before)) =
      resume L r ⟨d.rules ++ [(name, before.reverse ++ alts)], d.entry, .between⟩ := by
  induction h generalizing before with
  | @last s vs mid r h hne stop =>
    have hmid := h.length_le
    have hr := stop.length_le
    obtain ⟨place, items⟩ := h.resume_eq (d := d) (R := .upTo name offset before) hs
    rw [items, resume_gap stop (by omega)]
    refine resume_mark rfl (by omega) ?_
    intro t ht hhead _ _
    rw [Draft.step_semicolon ht hhead]
    refine Draft.closeRule_eq_ok.mpr ⟨rfl, ?_, new, ?_⟩
    · simpa [OpenRule.after, OpenRule.upTo] using hne
    · simp [OpenRule.after, OpenRule.upTo, Draft.inside]
  | @more s vs mid r alts q h hne bar hs' ih =>
    have hmid := h.length_le
    have hr := bar.length_le
    simp only [List.length_cons] at hr
    obtain ⟨place, items⟩ := h.resume_eq (d := d) (R := .upTo name offset before) hs
    have next : resume L ('|' :: r)
        (d.inside (OpenRule.after (.upTo name offset before) vs place)) =
          resume L r (d.inside (.upTo name offset (ofItems vs :: before))) := by
      refine resume_mark rfl (by simp only [List.length_cons]; omega) ?_
      intro t ht hhead _ _
      rw [Draft.step_bar ht hhead]
      refine Draft.nextAlternative_eq_ok.mpr ⟨rfl, ?_, ?_⟩
      · simpa [OpenRule.after, OpenRule.upTo] using hne
      · simp [OpenRule.after, OpenRule.upTo, Draft.inside]
    rw [items, resume_gap bar (by omega), next, ih (by omega), List.reverse_cons,
      List.append_assoc, List.singleton_append]

/-- Where the outcome is a grammar, alternatives come next, and the rule is new. -/
theorem exists_alternatives {name : String} {offset : Nat} {before : List Validator}
    (hs : s.length ≤ L) (h : resume L s (d.inside (.upTo name offset before)) = .ok g) :
    ∃ alts r, Alternatives s alts r ∧ d.rules.lookup name = none ∧
      resume L r ⟨d.rules ++ [(name, before.reverse ++ alts)], d.entry, .between⟩ = .ok g := by
  induction hlen : s.length using Nat.strong_induction_on generalizing s before with
  | _ len ih =>
    obtain ⟨vs, mid, c, r, items, gap, ends, h⟩ := exists_items hs rfl h
    have hmid := items.length_le
    have hr := gap.length_le
    simp only [List.length_cons] at hr
    have mark : isMark c := by rcases ends with rfl | rfl | rfl <;> rfl
    obtain ⟨d', step, next⟩ := step_of_resume h (.mark mark)
      (by simp only [List.length_cons]; omega)
    rcases exists_mark rfl rfl rfl step with ⟨rfl, -⟩ | ⟨rfl, step⟩ | ⟨rfl, step⟩ | ⟨rfl, step⟩
    · rcases ends with h | h | h <;> cases h
    · obtain ⟨-, hne, new, rfl⟩ := Draft.closeRule_eq_ok.mp step
      refine ⟨_, r, .last items (by simpa [OpenRule.after, OpenRule.upTo] using hne) gap, new, ?_⟩
      simpa [OpenRule.after, OpenRule.upTo, Draft.inside] using next
    · obtain ⟨-, hne, rfl⟩ := Draft.nextAlternative_eq_ok.mp step
      have next : resume L r (d.inside (.upTo name offset (ofItems vs :: before))) = .ok g := by
        simpa [OpenRule.after, OpenRule.upTo, Draft.inside] using next
      obtain ⟨alts, q, others, new, h⟩ := ih _ (by omega) (by omega) next rfl
      refine ⟨_, q, .more items (by simpa [OpenRule.after, OpenRule.upTo] using hne) gap others,
        new, by simpa using h⟩
    · obtain ⟨_, _, outer, -⟩ := Draft.closeGroup_eq_ok.mp step
      cases outer

/-! ### Declarations -/

namespace Draft

variable {d' : Draft} {t : Token}

/-- A step that succeeds was not taken with a comment that is not closed. -/
theorem step_closed {next : Step} {e : Error}
    (h : (if t.lexeme = .openComment then .error e else next) = .ok d') : next = .ok d' := by
  split_ifs at h
  exact h

theorem betweenToken_eq_ok : d.betweenToken t = .ok d' ↔
    (∃ w, t.lexeme = .name w ∧ d' = { d with phase := .colon (String.ofList w) t.start }) ∨
      t.lexeme = .mark ∧ t.head = '%' ∧ d' = { d with phase := .directive t.stop } := by
  unfold betweenToken
  cases t.lexeme with
  | mark => by_cases h : t.head = '%' <;> simp [h, eq_comm]
  | _ => simp [eq_comm]

theorem directiveToken_eq_ok {offset : Nat} : d.directiveToken offset t = .ok d' ↔
    ∃ w, t.lexeme = .name w ∧ String.ofList w = "entry" ∧ d.entry = none ∧
      d' = { d with phase := .entryName } := by
  unfold directiveToken
  cases t.lexeme with
  | name w =>
    by_cases h : String.ofList w = "entry"
    · cases d.entry <;> simp [h, eq_comm]
    · simp [h]
  | _ => simp

theorem entryNameToken_eq_ok : d.entryNameToken t = .ok d' ↔
    ∃ w, t.lexeme = .name w ∧ d' = { d with phase := .entryEnd (String.ofList w) } := by
  unfold entryNameToken
  cases t.lexeme <;> simp [eq_comm]

theorem expectMark_eq_ok {mark : Char} {next : Draft} : expectMark mark t next = .ok d' ↔
    t.lexeme = .mark ∧ t.head = mark ∧ d' = next := by
  unfold expectMark
  split_ifs with h
  · simp [h, eq_comm]
  · simpa using fun hl hh _ => h ⟨hl, hh⟩

end Draft

/-- The draft after declarations. -/
def draftOf (ds : List Declaration) : Draft := ⟨rulesOf ds, (entriesOf ds).head?, .between⟩

/-- Between declarations the source may end if it has a rule. -/
theorem finish_draftOf {ds : List Declaration} (h : Admissible ds) :
    (draftOf ds).finish L = .ok g ↔ Denotes ds g := by
  obtain ⟨entry, rules⟩ := g
  simp only [draftOf, Draft.finish]
  cases hrules : rulesOf ds with
  | nil =>
    refine ⟨fun ok => (by cases ok), fun denotes => absurd hrules denotes.declared⟩
  | cons first others =>
    constructor
    · intro ok
      obtain ⟨rfl, rfl⟩ := Grammar.mk.injEq .. ▸ Except.ok.inj ok
      refine ⟨h, by simp [hrules], hrules.symm, ?_⟩
      rw [hrules]
      cases (entriesOf ds).head? <;> rfl
    · rintro ⟨-, -, hr, he⟩
      rw [hrules] at hr he
      obtain rfl : rules = first :: others := hr
      cases hentries : (entriesOf ds).head? <;> rw [hentries] at he <;>
        · obtain rfl := Option.some.inj he
          rfl

/-- A mark that has to come next does. -/
theorem exists_expected {c : Char} {next : Draft} (h : resume L s d = .ok g) (hs : s.length ≤ L)
    (hd : ∀ rules entry, d ≠ ⟨rules, entry, .between⟩)
    (step : ∀ t, d.step t = (if t.lexeme = .openComment then .error ⟨.unclosedComment, t.start⟩
      else Draft.expectMark c t next)) :
    ∃ r, Gap s (c :: r) ∧ resume L r next = .ok g := by
  obtain ⟨s', l, r, d', gap, token, taken, h⟩ := exists_token h hs hd
  rw [step] at taken
  obtain ⟨rfl, rfl, rfl⟩ := Draft.expectMark_eq_ok.mp (Draft.step_closed taken)
  cases token with
  | mark => exact ⟨r, gap, h⟩

/-- The head of a rule opens it. -/
theorem Head.resume_eq (rules : List (String × List Validator)) (entry : Option String)
    {name : String} (h : Head s name r) (hs : s.length ≤ L) :
    ∃ offset, resume L s ⟨rules, entry, .between⟩ =
      resume L r (Draft.inside ⟨rules, entry, .between⟩ (.upTo name offset [])) := by
  obtain ⟨gap, token, colon⟩ := h
  rename_i s' w q
  have h₁ := gap.length_le
  have h₂ := token.length_lt
  have h₃ := colon.length_le
  have named : resume L s' ⟨rules, entry, .between⟩ =
      resume L q ⟨rules, entry, .colon (String.ofList w) (L - s'.length)⟩ :=
    resume_step token (by omega) rfl
  refine ⟨L - s'.length, ?_⟩
  rw [resume_gap gap hs, named, resume_gap colon (by omega)]
  refine resume_mark rfl (by omega) ?_
  rintro ⟨_, _, _, _⟩ rfl rfl _ _
  rfl

/-- A directive gives the entry. -/
theorem Directive.resume_eq {rules : List (String × List Validator)} {name : String}
    (h : Directive s name r) (hs : s.length ≤ L) :
    resume L s ⟨rules, none, .between⟩ = resume L r ⟨rules, some name, .between⟩ := by
  obtain ⟨percent, gap, keyword, known, gap', token, stop⟩ := h
  rename_i k k' _ q n w p
  have h₁ := percent.length_le
  have h₂ := gap.length_le
  have h₃ := keyword.length_lt
  have h₄ := gap'.length_le
  have h₅ := token.length_lt
  have h₆ := stop.length_le
  simp only [List.length_cons] at h₁
  have opened : resume L ('%' :: k) ⟨rules, none, .between⟩ =
      resume L k ⟨rules, none, .directive (L - k.length)⟩ := by
    refine resume_mark rfl (by simp only [List.length_cons]; omega) ?_
    rintro ⟨_, _, _, _⟩ rfl rfl _ rfl
    rfl
  have entered : resume L k' ⟨rules, none, .directive (L - k.length)⟩ =
      resume L q ⟨rules, none, .entryName⟩ := by
    refine resume_step keyword (by omega) ?_
    simp [Draft.step, Draft.directiveToken, known]
  have named : resume L n ⟨rules, none, .entryName⟩ =
      resume L p ⟨rules, none, .entryEnd (String.ofList w)⟩ :=
    resume_step token (by omega) rfl
  rw [resume_gap percent hs, opened, resume_gap gap (by omega), entered,
    resume_gap gap' (by omega), named, resume_gap stop (by omega)]
  refine resume_mark rfl (by omega) ?_
  rintro ⟨_, _, _, _⟩ rfl rfl _ _
  rfl

/-- What comes next where the outcome is a grammar: nothing more, the head of a rule, or the
directive if there has been none. -/
theorem exists_declaration {rules : List (String × List Validator)} {entry : Option String}
    (h : resume L s ⟨rules, entry, .between⟩ = .ok g) (hs : s.length ≤ L) :
    Gap s [] ∨
      (∃ name offset r, Head s name r ∧
        resume L r (Draft.inside ⟨rules, entry, .between⟩ (.upTo name offset [])) = .ok g) ∨
      ∃ name r, Directive s name r ∧ entry = none ∧
        resume L r ⟨rules, some name, .between⟩ = .ok g := by
  rcases usable_of_resume h with gap | ⟨s', l, k, gap, token⟩
  · exact Or.inl gap
  have hs' := gap.length_le
  have hr := token.length_lt
  rw [resume_gap gap hs] at h
  obtain ⟨d', step, h⟩ := step_of_resume h token (by omega)
  rcases Draft.betweenToken_eq_ok.mp (Draft.step_closed step) with ⟨w, rfl, rfl⟩ | ⟨rfl, head, rfl⟩
  · obtain ⟨r, colon, h⟩ := exists_expected h (by omega) (by rintro _ _ ⟨⟩) fun _ => rfl
    exact Or.inr (Or.inl ⟨_, _, r, ⟨gap, token, colon⟩, h⟩)
  · cases token with
    | @mark c _ hc =>
      obtain rfl : c = '%' := head
      obtain ⟨k', l, r, d', gap', keyword, step, h⟩ :=
        exists_token h (by omega) (by rintro _ _ ⟨⟩)
      have hk' := gap'.length_le
      have hr' := keyword.length_lt
      obtain ⟨_, rfl, known, none, rfl⟩ :=
        Draft.directiveToken_eq_ok.mp (Draft.step_closed step)
      obtain ⟨n, l, q, d', hn, name, step, h⟩ := exists_token h (by omega) (by rintro _ _ ⟨⟩)
      have hn' := hn.length_le
      have hq := name.length_lt
      obtain ⟨w, rfl, rfl⟩ := Draft.entryNameToken_eq_ok.mp (Draft.step_closed step)
      obtain ⟨r', stop, h⟩ := exists_expected h (by omega) (by rintro _ _ ⟨⟩) fun _ => rfl
      exact Or.inr (Or.inr
        ⟨_, r', ⟨gap, gap', keyword, known, hn, name, stop⟩, none, h⟩)

/-! ### Documents -/

@[simp] theorem draftOf_rule (ds : List Declaration) (name : String) (alts : List Validator) :
    draftOf (ds ++ [.rule name alts]) =
      ⟨rulesOf ds ++ [(name, alts)], (entriesOf ds).head?, .between⟩ := by
  simp [draftOf, rulesOf_append, entriesOf_append]

@[simp] theorem draftOf_entry {ds : List Declaration} (name : String) (none : entriesOf ds = []) :
    draftOf (ds ++ [.entry name]) = ⟨rulesOf ds, some name, .between⟩ := by
  simp [draftOf, rulesOf_append, entriesOf_append, none]

/-- Declarations that denote a grammar together with those before are read as it. -/
theorem Document.resume_eq {before ds : List Declaration} (doc : Document s ds)
    (hs : s.length ≤ L) (h : Admissible before) (denotes : Denotes (before ++ ds) g) :
    resume L s (draftOf before) = .ok g := by
  induction doc generalizing before with
  | done gap =>
    rw [resume_gap gap hs, resume_end, finish_draftOf h]
    rwa [List.append_nil] at denotes
  | @rule s name b alts r ds head body doc ih =>
    have h₁ := head.length_lt
    have h₂ := body.length_lt
    rw [← List.singleton_append, ← List.append_assoc] at denotes
    have more := denotes.toAdmissible.before
    have onward := ih (by omega) more denotes
    obtain ⟨offset, opened⟩ := head.resume_eq (rulesOf before) (entriesOf before).head? hs
    rw [draftOf_rule] at onward
    rw [draftOf, opened, body.resume_eq (by omega) ((admissible_rule h).mp more)]
    exact onward
  | @entry s name r ds directive doc ih =>
    have h₁ := directive.length_lt
    rw [← List.singleton_append, ← List.append_assoc] at denotes
    have more := denotes.toAdmissible.before
    have first := (admissible_entry h).mp more
    have onward := ih (by omega) more denotes
    rw [draftOf_entry _ first] at onward
    rw [draftOf, first, List.head?_nil, directive.resume_eq hs]
    exact onward

/-- Where the outcome is a grammar, the rest is declarations, and with those before they denote it.
-/
theorem exists_document {before : List Declaration} (hs : s.length ≤ L) (h : Admissible before)
    (ok : resume L s (draftOf before) = .ok g) :
    ∃ ds, Document s ds ∧ Denotes (before ++ ds) g := by
  induction hlen : s.length using Nat.strong_induction_on generalizing s before with
  | _ len ih =>
    rcases exists_declaration ok hs with
      gap | ⟨name, offset, b, head, ok⟩ | ⟨name, r, directive, none, ok⟩
    · rw [resume_gap gap hs, resume_end, finish_draftOf h] at ok
      exact ⟨[], .done gap, by rwa [List.append_nil]⟩
    · have h₁ := head.length_lt
      obtain ⟨alts, r, body, new, ok⟩ := exists_alternatives (by omega) ok
      have h₂ := body.length_lt
      have more : Admissible (before ++ [.rule name alts]) := (admissible_rule h).mpr new
      obtain ⟨ds, doc, denotes⟩ := ih r.length (by omega) (by omega) more
        (by rw [draftOf_rule]; exact ok) rfl
      exact ⟨_, .rule head body doc, by simpa using denotes⟩
    · have h₁ := directive.length_lt
      have first : entriesOf before = [] := List.head?_eq_none_iff.mp none
      have more : Admissible (before ++ [.entry name]) := (admissible_entry h).mpr first
      obtain ⟨ds, doc, denotes⟩ := ih r.length (by omega) (by omega) more
        (by rw [draftOf_entry _ first]; exact ok) rfl
      exact ⟨_, .entry directive doc, by simpa using denotes⟩

/-- What is read is the source of declarations that denote it. -/
theorem document_of_read {src : String} (h : read src = .ok g) :
    ∃ ds, Document src.toList ds ∧ Denotes ds g := by
  rw [read_eq_resume] at h
  exact exists_document (Nat.le_refl _) admissible_nil h

/-- A source of declarations is read as what they denote. -/
theorem Document.read {src : String} {ds : List Declaration} (doc : Document src.toList ds)
    (denotes : Denotes ds g) : read src = .ok g := by
  rw [read_eq_resume]
  exact doc.resume_eq (Nat.le_refl _) admissible_nil denotes

/-- The reader accepts exactly the notation, and returns what the declarations denote. -/
theorem read_iff (src : String) (g : Grammar) :
    read src = .ok g ↔ ∃ ds, Document src.toList ds ∧ Denotes ds g := by
  constructor
  · exact document_of_read
  · rintro ⟨ds, doc, denotes⟩
    exact doc.read denotes

end Notation

end OrderedGrammar

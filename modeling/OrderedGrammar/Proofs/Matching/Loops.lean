import Mathlib
import OrderedGrammar.Matching.Engine

/-!
What the loops of the matcher do, told by positions instead of steps. Trees follow one another from
an offset on: `stopAfter` is where they end, and `Linked R` says that each of them stands in the
relation `R` to its index and to the offset where the one before it stopped. A choice gives the
answer of the least alternative that does not fail (`firstMatch_eq_iff`), a sequence links its items
or breaks at one of them (`chain_eq_some_iff`, `chain_eq_broken_iff`), and a repetition makes the
rounds that are linked and grow, up to one that does not (`iterate_eq_ok_iff`,
`iterate_eq_error_iff`). The bound on the number of rounds is never reached, since each round takes
a character of the text at least.
-/

namespace OrderedGrammar.Matching

/-! ### Trees that follow one another -/

/-- Where trees that follow one another from an offset on end. -/
def stopAfter (pos : Nat) (ts : List Tree) : Nat := (ts.getLast?.map Tree.stop).getD pos

@[simp] theorem stopAfter_nil (pos : Nat) : stopAfter pos [] = pos := rfl

@[simp] theorem stopAfter_cons (pos : Nat) (t : Tree) (ts : List Tree) :
    stopAfter pos (t :: ts) = stopAfter t.stop ts := by
  cases ts with
  | nil => rfl
  | cons u us =>
    rw [stopAfter, stopAfter, List.getLast?_cons_cons]
    cases h : (u :: us).getLast? with
    | none => simp at h
    | some w => rfl

theorem listNode_eq (tag : String) (pos : Nat) (ts : List Tree) :
    listNode tag pos ts = .list ⟨tag, false, pos, stopAfter pos ts⟩ ts := rfl

/-- Each tree has to do with its index and with the offset where the trees before it end. -/
def Linked (R : Nat → Nat → Tree → Prop) (pos : Nat) (ts : List Tree) : Prop :=
  ∀ i t, ts[i]? = some t → R i (stopAfter pos (ts.take i)) t

section Linked

variable {R S : Nat → Nat → Tree → Prop} {pos : Nat} {t : Tree} {ts : List Tree}

theorem linked_nil : Linked R pos [] := by
  intro i t h
  simp at h

theorem linked_cons :
    Linked R pos (t :: ts) ↔ R 0 pos t ∧ Linked (fun i => R (i + 1)) t.stop ts := by
  constructor
  · intro h
    refine ⟨h 0 t rfl, fun i u hu => ?_⟩
    have := h (i + 1) u (by simpa using hu)
    simpa using this
  · rintro ⟨h0, h⟩ i u hu
    cases i with
    | zero =>
      cases Option.some.inj hu
      exact h0
    | succ i => simpa using h i u (by simpa using hu)

theorem Linked.imp (h : Linked R pos ts) (hRS : ∀ i p t, R i p t → S i p t) : Linked S pos ts :=
  fun i t ht => hRS _ _ _ (h i t ht)

theorem Linked.and (h : Linked R pos ts) (h' : Linked S pos ts) :
    Linked (fun i p t => R i p t ∧ S i p t) pos ts :=
  fun i t ht => ⟨h i t ht, h' i t ht⟩

/-- A relation between the offsets where a tree begins and ends holds for the trees as a whole. -/
theorem Linked.stopAfter_rel {Q : Nat → Nat → Prop} (refl : ∀ p, Q p p)
    (trans : ∀ {a b c}, Q a b → Q b c → Q a c) (h : Linked (fun _ p t => Q p t.stop) pos ts) :
    Q pos (stopAfter pos ts) := by
  induction ts generalizing pos with
  | nil => exact refl pos
  | cons t ts ih =>
    obtain ⟨h0, hrest⟩ := linked_cons.mp h
    rw [stopAfter_cons]
    exact trans h0 (ih hrest)

/-- Trees that never go back and take nothing together take nothing each. -/
theorem Linked.stays (h : Linked (fun _ p t => p ≤ t.stop) pos ts)
    (hle : stopAfter pos ts ≤ pos) : Linked (fun _ p t => t.stop ≤ p) pos ts := by
  induction ts generalizing pos with
  | nil => exact linked_nil
  | cons t ts ih =>
    obtain ⟨h0, hrest⟩ := linked_cons.mp h
    rw [stopAfter_cons] at hle
    have hts := hrest.stopAfter_rel Nat.le_refl Nat.le_trans
    exact linked_cons.mpr ⟨by omega, ih hrest (by omega)⟩

/-- If there are no more trees than items, what is said of the items holds for an item each. -/
theorem Linked.items [Regex] {items : List Validator} {R : Validator → Nat → Tree → Prop}
    (h : Linked (fun i p t => ∀ v, items[i]? = some v → R v p t) pos ts)
    (hl : ts.length ≤ items.length) : Linked (fun _ p t => ∃ v ∈ items, R v p t) pos ts := by
  intro i t ht
  have hi : i < items.length := Nat.lt_of_lt_of_le (List.getElem?_eq_some_iff.mp ht).1 hl
  exact ⟨items[i], List.getElem_mem hi, h i t ht _ (List.getElem?_eq_getElem hi)⟩

/-- Where trees take nothing together, the item of each has a match that takes nothing. -/
theorem Linked.items_stay [Regex] {items : List Validator} {R : Validator → Nat → Tree → Prop}
    {P : Validator → Prop} (h : Linked (fun i p t => ∀ v, items[i]? = some v → R v p t) pos ts)
    (hl : ts.length ≤ items.length) (onward : ∀ v p t, R v p t → p ≤ t.stop)
    (hle : stopAfter pos ts ≤ pos) (hP : ∀ v p t, R v p t → t.stop ≤ p → P v) :
    ∀ v ∈ items.take ts.length, P v := by
  have stays := ((h.items hl).imp fun _ _ _ ⟨v, _, hv⟩ => onward v _ _ hv).stays hle
  intro v hv
  obtain ⟨i, hi⟩ := List.getElem?_of_mem hv
  rw [List.getElem?_take] at hi
  split at hi
  · next hlt =>
    have ht : ts[i]? = some ts[i] := List.getElem?_eq_getElem hlt
    exact hP v _ _ (h i _ ht v hi) (stays i _ ht)
  · cases hi

end Linked

/-! ### Choice -/

section Choice

variable [Regex] {attempt : Validator → Outcome} {v : Validator} {rest : List Validator}

theorem firstMatch_skip (h : attempt v = .ok none) :
    firstMatch attempt (v :: rest) = firstMatch attempt rest := by
  rw [firstMatch, h]; rfl

theorem firstMatch_take (h : attempt v ≠ .ok none) :
    firstMatch attempt (v :: rest) = attempt v := by
  rw [firstMatch]
  cases hv : attempt v with
  | error e => rfl
  | ok found =>
    cases found with
    | none => exact absurd hv h
    | some t => rfl

/-- A choice ends as the least alternative does that does not fail. -/
theorem firstMatch_eq_iff {o : Outcome} (ho : o ≠ .ok none) {vs : List Validator} :
    firstMatch attempt vs = o ↔ ∃ (i : Nat) (v : Validator), vs[i]? = some v ∧ attempt v = o ∧
      ∀ w ∈ vs.take i, attempt w = .ok none := by
  induction vs with
  | nil => simp [firstMatch, Ne.symm ho]
  | cons v rest ih =>
    by_cases hv : attempt v = .ok none
    · rw [firstMatch_skip hv, ih]
      constructor
      · rintro ⟨i, w, hw, hi, before⟩
        exact ⟨i + 1, w, hw, hi, List.forall_mem_cons.mpr ⟨hv, before⟩⟩
      · rintro ⟨i, w, hw, hi, before⟩
        cases i with
        | zero => cases Option.some.inj hw; exact absurd (hi.symm.trans hv) ho
        | succ i => exact ⟨i, w, hw, hi, (List.forall_mem_cons.mp before).2⟩
    · rw [firstMatch_take hv]
      constructor
      · exact fun h => ⟨0, v, rfl, h, by simp⟩
      · rintro ⟨i, w, hw, hi, before⟩
        cases i with
        | zero => cases Option.some.inj hw; exact hi
        | succ i => exact absurd (List.forall_mem_cons.mp before).1 hv

/-- A choice fails if all alternatives do. -/
theorem firstMatch_eq_none_iff {vs : List Validator} :
    firstMatch attempt vs = .ok none ↔ ∀ v ∈ vs, attempt v = .ok none := by
  induction vs with
  | nil => simp [firstMatch]
  | cons v rest ih =>
    by_cases hv : attempt v = .ok none
    · rw [firstMatch_skip hv, ih]
      simp [hv]
    · rw [firstMatch_take hv]
      simp [hv]

end Choice

/-! ### Sequences -/

/-- How an evaluation ends that gives no tree: it fails, or it ends in an error. -/
def broken {α : Type} : Option EvalError → Except EvalError (Option α)
  | none => .ok none
  | some e => .error e

theorem broken_inj {α : Type} {b c : Option EvalError} :
    (broken b : Except EvalError (Option α)) = broken c ↔ b = c := by
  cases b <;> cases c <;> simp [broken]

theorem broken_ne_some {α : Type} {b : Option EvalError} {a : α} : broken b ≠ .ok (some a) := by
  cases b <;> simp [broken]

/-- An evaluation gives a tree or it does not. -/
theorem some_or_broken {α : Type} (o : Except EvalError (Option α)) :
    (∃ a, o = .ok (some a)) ∨ ∃ b, o = broken b := by
  rcases o with e | _ | a
  · exact Or.inr ⟨some e, rfl⟩
  · exact Or.inr ⟨none, rfl⟩
  · exact Or.inl ⟨a, rfl⟩

theorem map_eq_some_iff {α β : Type} {f : α → β} {x : Except EvalError (Option α)} {b : β} :
    x.map (·.map f) = .ok (some b) ↔ ∃ a, x = .ok (some a) ∧ f a = b := by
  rcases x with e | _ | a <;> simp [Except.map]

theorem map_eq_broken_iff {α β : Type} {f : α → β} {x : Except EvalError (Option α)}
    {b : Option EvalError} : x.map (·.map f) = broken b ↔ x = broken b := by
  rcases x with e | _ | a <;> cases b <;> simp [Except.map, broken]

section Chain

variable [Regex] {attempt : Validator → Nat → Outcome} {v : Validator} {rest : List Validator}
  {pos : Nat}

theorem chain_broken {b : Option EvalError} (h : attempt v pos = broken b) :
    chain attempt (v :: rest) pos = broken b := by
  rw [chain, h]
  cases b <;> rfl

theorem chain_some {t : Tree} (h : attempt v pos = .ok (some t)) :
    chain attempt (v :: rest) pos = (chain attempt rest t.stop).map (·.map (t :: ·)) := by
  rw [chain, h]
  simp only [bind, Except.bind]
  cases chain attempt rest t.stop <;> rfl

/-- The items have matched, one after the other, as far as there are trees. -/
def Passed (attempt : Validator → Nat → Outcome) (items : List Validator) (pos : Nat)
    (ts : List Tree) : Prop :=
  Linked (fun i p t => ∀ v, items[i]? = some v → attempt v p = .ok (some t)) pos ts

theorem passed_nil {items : List Validator} : Passed attempt items pos [] := linked_nil

theorem passed_cons {t : Tree} {ts : List Tree} : Passed attempt (v :: rest) pos (t :: ts) ↔
    attempt v pos = .ok (some t) ∧ Passed attempt rest t.stop ts := by
  unfold Passed
  rw [linked_cons]
  simp

/-- A sequence matches if all its items do, each from where the one before it stopped. -/
theorem chain_eq_some_iff : ∀ {items : List Validator} {pos : Nat} {ts : List Tree},
    chain attempt items pos = .ok (some ts) ↔
      ts.length = items.length ∧ Passed attempt items pos ts
  | [], pos, [] => by simp [chain, passed_nil]
  | [], pos, t :: ts => by simp [chain]
  | v :: rest, pos, ts => by
    rcases some_or_broken (attempt v pos) with ⟨u, hv⟩ | ⟨b, hv⟩
    · rw [chain_some hv, map_eq_some_iff]
      constructor
      · rintro ⟨us, hus, rfl⟩
        obtain ⟨hl, hp⟩ := chain_eq_some_iff.mp hus
        exact ⟨congrArg (· + 1) hl, passed_cons.mpr ⟨hv, hp⟩⟩
      · rintro ⟨hl, hp⟩
        cases ts with
        | nil => simp at hl
        | cons t ts =>
          obtain ⟨ht, hp⟩ := passed_cons.mp hp
          cases hv.symm.trans ht
          exact ⟨ts, chain_eq_some_iff.mpr ⟨Nat.succ.inj hl, hp⟩, rfl⟩
    · rw [chain_broken hv]
      constructor
      · exact fun h => absurd h broken_ne_some
      · rintro ⟨hl, hp⟩
        cases ts with
        | nil => simp at hl
        | cons t ts => exact absurd (hv.symm.trans (passed_cons.mp hp).1) broken_ne_some

/-- A sequence breaks as the first item does that gives no tree where it is tried. -/
theorem chain_eq_broken_iff {b : Option EvalError} {items : List Validator} :
    chain attempt items pos = broken b ↔ ∃ ts v, items[ts.length]? = some v ∧
      Passed attempt items pos ts ∧ attempt v (stopAfter pos ts) = broken b := by
  induction items generalizing pos with
  | nil => cases b <;> simp [chain, broken]
  | cons v rest ih =>
    constructor
    · intro h
      rcases some_or_broken (attempt v pos) with ⟨u, hv⟩ | ⟨c, hv⟩
      · rw [chain_some hv, map_eq_broken_iff] at h
        obtain ⟨ts, w, hw, hp, hb⟩ := ih.mp h
        exact ⟨u :: ts, w, hw, passed_cons.mpr ⟨hv, hp⟩, by rw [stopAfter_cons]; exact hb⟩
      · rw [chain_broken hv, broken_inj] at h
        exact ⟨[], v, rfl, passed_nil, h ▸ hv⟩
    · rintro ⟨ts, w, hw, hp, hb⟩
      cases ts with
      | nil => cases Option.some.inj hw; exact chain_broken hb
      | cons u ts =>
        obtain ⟨hv, hp⟩ := passed_cons.mp hp
        rw [stopAfter_cons] at hb
        rw [chain_some hv, map_eq_broken_iff]
        exact ih.mpr ⟨ts, w, hw, hp, hb⟩

end Chain

/-! ### Repetitions -/

section Iterate

variable {attempt : Nat → Outcome} {pos : Nat}

/-- Rounds that match one after the other, each of them taking something. -/
def Rounds (attempt : Nat → Outcome) (pos : Nat) (ts : List Tree) : Prop :=
  Linked (fun _ p t => attempt p = .ok (some t) ∧ p < t.stop) pos ts

theorem rounds_nil : Rounds attempt pos [] := linked_nil

theorem rounds_cons {t : Tree} {ts : List Tree} : Rounds attempt pos (t :: ts) ↔
    (attempt pos = .ok (some t) ∧ pos < t.stop) ∧ Rounds attempt t.stop ts := linked_cons

/-- No further round: it fails, or it takes nothing. -/
def Halts (attempt : Nat → Outcome) (pos : Nat) : Prop :=
  attempt pos = .ok none ∨ ∃ t, attempt pos = .ok (some t) ∧ t.stop ≤ pos

theorem iterate_halts {fuel : Nat} (h : Halts attempt pos) : iterate attempt fuel pos = .ok [] := by
  cases fuel with
  | zero => rfl
  | succ fuel =>
    rcases h with hn | ⟨t, ht, hle⟩
    · rw [iterate, hn]; rfl
    · rw [iterate, ht]
      simp only [bind, Except.bind, hle, if_pos]; rfl

theorem iterate_error {fuel : Nat} {e : EvalError} (h : attempt pos = .error e) :
    iterate attempt (fuel + 1) pos = .error e := by
  rw [iterate, h]; rfl

theorem iterate_some {fuel : Nat} {t : Tree} (h : attempt pos = .ok (some t)) (hlt : pos < t.stop) :
    iterate attempt (fuel + 1) pos = (iterate attempt fuel t.stop).map (t :: ·) := by
  rw [iterate, h]
  simp only [bind, Except.bind, if_neg (Nat.not_le.mpr hlt)]
  cases iterate attempt fuel t.stop <;> rfl

/-- Attempts that never go beyond the text. -/
def Bounded (text : Text) (attempt : Nat → Outcome) : Prop :=
  ∀ p t, attempt p = .ok (some t) → t.stop ≤ max p text.size

/-- One more round halts, ends in an error, or takes something. -/
theorem round_cases (attempt : Nat → Outcome) (pos : Nat) :
    Halts attempt pos ∨ (∃ e, attempt pos = .error e) ∨
      ∃ t, attempt pos = .ok (some t) ∧ pos < t.stop := by
  rcases h : attempt pos with e | _ | t
  · exact Or.inr (Or.inl ⟨e, rfl⟩)
  · exact Or.inl (Or.inl h)
  · rcases Nat.lt_or_ge pos t.stop with hlt | hle
    · exact Or.inr (Or.inr ⟨t, rfl, hlt⟩)
    · exact Or.inl (Or.inr ⟨t, h, hle⟩)

theorem Halts.not_error {e : EvalError} (h : Halts attempt pos) : attempt pos ≠ .error e := by
  rcases h with h | ⟨t, h, -⟩ <;> simp [h]

theorem halts_of_le {o : Option Tree} (h : attempt pos = .ok o)
    (hle : ∀ t, o = some t → t.stop ≤ pos) : Halts attempt pos := by
  cases o with
  | none => exact Or.inl h
  | some t => exact Or.inr ⟨t, h, hle t rfl⟩

theorem Halts.not_rounds {ts : List Tree} (h : Halts attempt pos) (hts : ts ≠ []) :
    ¬ Rounds attempt pos ts := by
  intro hr
  cases ts with
  | nil => exact hts rfl
  | cons t ts =>
    obtain ⟨⟨ht, hlt⟩, -⟩ := rounds_cons.mp hr
    rcases h with h | ⟨u, hu, hle⟩
    · cases h.symm.trans ht
    · cases hu.symm.trans ht; omega

/-- No further round: it halts, or it ends in an error. -/
def Stuck (attempt : Nat → Outcome) (pos : Nat) : Prop :=
  ∀ t, attempt pos = .ok (some t) → t.stop ≤ pos

theorem Halts.stuck (h : Halts attempt pos) : Stuck attempt pos := by
  intro u hu
  rcases h with h | ⟨t, ht, hle⟩
  · cases h.symm.trans hu
  · cases ht.symm.trans hu
    exact hle

theorem stuck_of_error {e : EvalError} (h : attempt pos = .error e) : Stuck attempt pos := by
  intro u hu
  cases h.symm.trans hu

/-- There is only one way to make rounds up to where there is no further one. -/
theorem Rounds.unique : ∀ {pos : Nat} {ts us : List Tree}, Rounds attempt pos ts →
    Stuck attempt (stopAfter pos ts) → Rounds attempt pos us → Stuck attempt (stopAfter pos us) →
      ts = us
  | _, [], [], _, _, _, _ => rfl
  | pos, [], u :: us, _, hs, hr, _ => by
    obtain ⟨⟨hu, hlt⟩, -⟩ := rounds_cons.mp hr
    exact absurd (hs u hu) (Nat.not_le.mpr hlt)
  | pos, t :: ts, [], hr, _, _, hs => by
    obtain ⟨⟨ht, hlt⟩, -⟩ := rounds_cons.mp hr
    exact absurd (hs t ht) (Nat.not_le.mpr hlt)
  | pos, t :: ts, u :: us, hr, hs, hr', hs' => by
    obtain ⟨⟨ht, -⟩, hr⟩ := rounds_cons.mp hr
    obtain ⟨⟨hu, -⟩, hr'⟩ := rounds_cons.mp hr'
    cases ht.symm.trans hu
    rw [stopAfter_cons] at hs hs'
    rw [hr.unique hs hr' hs']

/-- A repetition makes rounds up to one that halts it, or that ends in an error. -/
theorem iterate_cases {text : Text} (hb : Bounded text attempt) {fuel : Nat} (h0 : 0 < fuel)
    (hf : text.size < pos + fuel) : ∃ ts, Rounds attempt pos ts ∧
      (Halts attempt (stopAfter pos ts) ∧ iterate attempt fuel pos = .ok ts ∨
        ∃ e, attempt (stopAfter pos ts) = .error e ∧ iterate attempt fuel pos = .error e) := by
  induction fuel generalizing pos with
  | zero => exact absurd h0 (Nat.lt_irrefl 0)
  | succ fuel ih =>
    rcases round_cases attempt pos with hh | ⟨e, he⟩ | ⟨t, ht, hlt⟩
    · exact ⟨[], rounds_nil, Or.inl ⟨hh, iterate_halts hh⟩⟩
    · exact ⟨[], rounds_nil, Or.inr ⟨e, he, iterate_error he⟩⟩
    · have hle := hb pos t ht
      have room : text.size < t.stop + fuel := by omega
      obtain ⟨ts, hr, hend⟩ := ih (by omega) room
      refine ⟨t :: ts, rounds_cons.mpr ⟨⟨ht, hlt⟩, hr⟩, ?_⟩
      rw [stopAfter_cons, iterate_some ht hlt]
      rcases hend with ⟨hs, ho⟩ | ⟨e, he, ho⟩
      · exact Or.inl ⟨hs, by rw [ho]; rfl⟩
      · exact Or.inr ⟨e, he, by rw [ho]; rfl⟩

theorem iterate_eq_ok_iff {text : Text} (hb : Bounded text attempt) {fuel : Nat} {ts : List Tree}
    (h0 : 0 < fuel) (hf : text.size < pos + fuel) : iterate attempt fuel pos = .ok ts ↔
      Rounds attempt pos ts ∧ Halts attempt (stopAfter pos ts) := by
  obtain ⟨us, hr, ⟨hs, ho⟩ | ⟨e, he, ho⟩⟩ := iterate_cases hb h0 hf
  · rw [ho]
    constructor
    · intro h; cases h; exact ⟨hr, hs⟩
    · rintro ⟨hr', hs'⟩
      rw [hr.unique hs.stuck hr' hs'.stuck]
  · rw [ho]
    constructor
    · intro h; cases h
    · rintro ⟨hr', hs'⟩
      cases hr.unique (stuck_of_error he) hr' hs'.stuck
      exact absurd he hs'.not_error

theorem iterate_eq_error_iff {text : Text} (hb : Bounded text attempt) {fuel : Nat} {e : EvalError}
    (h0 : 0 < fuel) (hf : text.size < pos + fuel) : iterate attempt fuel pos = .error e ↔
      ∃ ts, Rounds attempt pos ts ∧ attempt (stopAfter pos ts) = .error e := by
  obtain ⟨us, hr, ⟨hs, ho⟩ | ⟨e', he, ho⟩⟩ := iterate_cases hb h0 hf
  · rw [ho]
    constructor
    · intro h; cases h
    · rintro ⟨ts, hr', he'⟩
      cases hr.unique hs.stuck hr' (stuck_of_error he')
      exact absurd he' hs.not_error
  · rw [ho]
    constructor
    · intro h; cases h; exact ⟨us, hr, he⟩
    · rintro ⟨ts, hr', he'⟩
      cases hr.unique (stuck_of_error he) hr' (stuck_of_error he')
      cases he.symm.trans he'
      rfl

/-- It does not matter how many rounds are allowed beyond those that the text has room for. -/
theorem iterate_fuel {text : Text} (hb : Bounded text attempt) {fuel fuel' : Nat} (h0 : 0 < fuel)
    (h0' : 0 < fuel') (hf : text.size < pos + fuel) (hf' : text.size < pos + fuel') :
    iterate attempt fuel pos = iterate attempt fuel' pos := by
  cases h : iterate attempt fuel pos with
  | error e =>
    have given := (iterate_eq_error_iff hb h0 hf).mp h
    exact ((iterate_eq_error_iff hb h0' hf').mpr given).symm
  | ok ts =>
    have given := (iterate_eq_ok_iff hb h0 hf).mp h
    exact ((iterate_eq_ok_iff hb h0' hf').mpr given).symm

/-! ### What a quantifier makes of its rounds -/

variable {text : Text} {tag : String}

/-- If no match is required, what has been taken is listed, be it nothing. -/
theorem repetition_optional : repetition attempt false text pos tag =
    (iterate attempt (text.size + 2) pos).map fun ts => some (listNode tag pos ts) := by
  rcases round_cases attempt pos with hh | ⟨e, he⟩ | ⟨t, ht, hlt⟩
  · rw [iterate_halts hh]
    rcases hh with h | ⟨t, h, hle⟩
    · rw [repetition, h]; rfl
    · rw [repetition, h]
      simp only [bind, Except.bind, if_pos hle]; rfl
  · rw [iterate_error he, repetition, he]; rfl
  · rw [iterate_some ht hlt, repetition, ht]
    simp only [bind, Except.bind, if_neg (Nat.not_le.mpr hlt)]
    cases iterate attempt (text.size + 1) t.stop <;> rfl

theorem repetition_required_none (h : attempt pos = .ok none) :
    repetition attempt true text pos tag = .ok none := by
  rw [repetition, h]; rfl

/-- If a match is required, one that takes nothing will do. -/
theorem repetition_required_empty {t : Tree} (h : attempt pos = .ok (some t)) (hle : t.stop ≤ pos) :
    repetition attempt true text pos tag = .ok (some (listNode tag pos [t])) := by
  rw [repetition, h]
  simp only [bind, Except.bind, if_pos hle]; rfl

theorem repetition_required (h : ¬ Halts attempt pos) :
    repetition attempt true text pos tag = repetition attempt false text pos tag := by
  rcases round_cases attempt pos with hh | ⟨e, he⟩ | ⟨t, ht, hlt⟩
  · exact absurd hh h
  · rw [repetition, repetition, he]; rfl
  · rw [repetition, repetition, ht]
    simp only [bind, Except.bind, if_neg (Nat.not_le.mpr hlt)]

end Iterate

end OrderedGrammar.Matching

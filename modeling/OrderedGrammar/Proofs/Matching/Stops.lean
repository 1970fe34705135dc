import OrderedGrammar.Proofs.Matching.Spans

/-!
Where matches stop, told without trees and tags. `Stops g text v pos x` says that the validator `v`
comes to `x` from `pos` on: to the place where its match stops, to no match, or to an error. It
holds of what an evaluation ends with, and of nothing else (`stops_iff`).
-/

namespace OrderedGrammar.Matching

/-- Where a match stops, no match, or an error. -/
abbrev Stop := Except EvalError (Option Nat)

/-- Where the outcome of an evaluation stops. -/
def stopOf (o : Outcome) : Stop := o.map (·.map Tree.stop)

/-- No match, or an error. -/
def NoMatch (x : Stop) : Prop := ∀ stop, x ≠ .ok (some stop)

theorem noMatch_broken (b : Option EvalError) : NoMatch (broken b) := fun _ => broken_ne_some

theorem NoMatch.exists_broken {x : Stop} (h : NoMatch x) : ∃ b, x = broken b :=
  (some_or_broken x).resolve_left fun ⟨stop, hx⟩ => h stop hx

variable [Regex]

mutual

/-- What a validator comes to from an offset on. -/
inductive Stops (g : Grammar) (text : Text) : Validator → Nat → Stop → Prop
  | terminal {t pos} : Stops g text (.terminal t) pos
      (.ok ((t.matched? text pos).map fun taken => pos + taken.length))
  | undefined {name pos} (h : g.rule? name = none) :
    Stops g text (.ref name) pos (.error (.undefinedRule name))
  | ref {name pos alternatives x} (h : g.rule? name = some alternatives)
    (hs : FirstStops g text alternatives pos x) : Stops g text (.ref name) pos x
  | sequence {items pos x} (h : ChainStops g text items pos x) :
    Stops g text (.sequence items) pos x
  | once {inner pos stop} (h : Stops g text inner pos (.ok (some stop))) :
    Stops g text (.quantified inner .zeroOrOne) pos (.ok (some stop))
  | noOnce {inner pos} (h : Stops g text inner pos (.ok none)) :
    Stops g text (.quantified inner .zeroOrOne) pos (.ok (some pos))
  | onceError {inner pos e} (h : Stops g text inner pos (.error e)) :
    Stops g text (.quantified inner .zeroOrOne) pos (.error e)
  | many {inner pos x} (h : LoopStops g text inner pos x) :
    Stops g text (.quantified inner .zeroOrMore) pos x
  /-- Where the first match is there, be it empty, one required match makes no difference. -/
  | some {inner pos stop x} (h : Stops g text inner pos (.ok (some stop)))
    (hs : LoopStops g text inner pos x) : Stops g text (.quantified inner .oneOrMore) pos x
  | someBroken {inner pos x} (h : Stops g text inner pos x) (hx : NoMatch x) :
    Stops g text (.quantified inner .oneOrMore) pos x
  | foreign {x pos} : Stops g text (.foreign x) pos (.error (.unknownValidator x))

/-- What the first alternative comes to that does not fail. -/
inductive FirstStops (g : Grammar) (text : Text) : List Validator → Nat → Stop → Prop
  | nil {pos} : FirstStops g text [] pos (.ok none)
  | skip {v rest pos x} (h : Stops g text v pos (.ok none))
    (hs : FirstStops g text rest pos x) : FirstStops g text (v :: rest) pos x
  | take {v rest pos x} (h : Stops g text v pos x) (hx : x ≠ .ok none) :
    FirstStops g text (v :: rest) pos x

/-- What items come to that begin where the one before stops. -/
inductive ChainStops (g : Grammar) (text : Text) : List Validator → Nat → Stop → Prop
  | nil {pos} : ChainStops g text [] pos (.ok (some pos))
  | next {v rest pos stop x} (h : Stops g text v pos (.ok (some stop)))
    (hs : ChainStops g text rest stop x) : ChainStops g text (v :: rest) pos x
  | broken {v rest pos x} (h : Stops g text v pos x) (hx : NoMatch x) :
    ChainStops g text (v :: rest) pos x

/-- What rounds come to that go on as long as they take something. -/
inductive LoopStops (g : Grammar) (text : Text) : Validator → Nat → Stop → Prop
  | halt {inner pos o} (h : Stops g text inner pos (.ok o))
    (hle : ∀ stop, o = some stop → stop ≤ pos) : LoopStops g text inner pos (.ok (some pos))
  | next {inner pos stop x} (h : Stops g text inner pos (.ok (some stop))) (hlt : pos < stop)
    (hs : LoopStops g text inner stop x) : LoopStops g text inner pos x
  | error {inner pos e} (h : Stops g text inner pos (.error e)) :
    LoopStops g text inner pos (.error e)

end

variable {g : Grammar} {text : Text}

/-! ### What is given stops there -/

theorem chainStops_of_linked {items : List Validator} {pos : Nat} {ts : List Tree}
    (hl : ts.length = items.length)
    (h : Linked (fun i p t => ∀ v, items[i]? = some v → Stops g text v p (.ok (some t.stop)))
      pos ts) : ChainStops g text items pos (.ok (some (stopAfter pos ts))) := by
  induction items generalizing pos ts with
  | nil =>
    obtain rfl := List.length_eq_zero_iff.mp hl
    exact .nil
  | cons v rest ih =>
    cases ts with
    | nil => cases hl
    | cons t ts =>
      obtain ⟨first, others⟩ := linked_cons.mp h
      rw [stopAfter_cons]
      exact .next (first v rfl) (ih (Nat.succ.inj hl) (by simpa using others))

theorem chainStops_of_broken {items : List Validator} {pos : Nat} {ts : List Tree} {v : Validator}
    {b : Option EvalError} (hv : items[ts.length]? = some v)
    (h : Linked (fun i p t => ∀ v, items[i]? = some v → Stops g text v p (.ok (some t.stop)))
      pos ts) (last : Stops g text v (stopAfter pos ts) (broken b)) :
    ChainStops g text items pos (broken b) := by
  induction items generalizing pos ts with
  | nil => cases hv
  | cons w rest ih =>
    cases ts with
    | nil =>
      obtain rfl : w = v := Option.some.inj hv
      exact .broken last (noMatch_broken b)
    | cons t ts =>
      obtain ⟨first, others⟩ := linked_cons.mp h
      rw [stopAfter_cons] at last
      exact .next (first w rfl) (ih hv (by simpa using others) last)

theorem loopStops_of_linked {inner : Validator} {pos : Nat} {ts : List Tree} {x : Stop}
    (h : Linked (fun _ p t => Stops g text inner p (.ok (some t.stop))) pos ts)
    (grows : Linked (fun _ p t => p < t.stop) pos ts)
    (last : LoopStops g text inner (stopAfter pos ts) x) : LoopStops g text inner pos x := by
  induction ts generalizing pos with
  | nil => exact last
  | cons t ts ih =>
    obtain ⟨first, others⟩ := linked_cons.mp h
    obtain ⟨hlt, grow⟩ := linked_cons.mp grows
    rw [stopAfter_cons] at last
    exact .next first hlt (ih others grow last)

/-- The least alternative that does not fail is the first to stop. -/
theorem firstStops_of_index {alternatives : List Validator} {pos i : Nat} {v : Validator} {x : Stop}
    (hi : alternatives[i]? = some v) (hv : Stops g text v pos x) (hx : x ≠ .ok none)
    (before : ∀ w ∈ alternatives.take i, Stops g text w pos (.ok none)) :
    FirstStops g text alternatives pos x := by
  induction alternatives generalizing i with
  | nil => cases hi
  | cons w rest ih =>
    cases i with
    | zero =>
      obtain rfl : w = v := Option.some.inj hi
      exact .take hv hx
    | succ i =>
      obtain ⟨first, others⟩ := List.forall_mem_cons.mp before
      exact .skip first (ih hi others)

theorem firstStops_none {alternatives : List Validator} {pos : Nat}
    (h : ∀ w ∈ alternatives, Stops g text w pos (.ok none)) :
    FirstStops g text alternatives pos (.ok none) := by
  induction alternatives with
  | nil => exact .nil
  | cons w rest ih =>
    obtain ⟨first, others⟩ := List.forall_mem_cons.mp h
    exact .skip first (ih others)

omit [Regex] in
theorem stopOf_broken (b : Option EvalError) : stopOf (broken b) = broken b := by
  cases b <;> rfl

theorem stops_of_gives [LawfulRegex] {v : Validator} {pos : Nat} {tag : String} {o : Outcome}
    (h : Gives g text v pos tag o) : Stops g text v pos (stopOf o) := by
  induction h with
  | @taken t pos tag stop h =>
    have stops : Stops g text (.terminal t) pos _ := .terminal
    rw [h] at stops
    exact stops
  | @refused t pos tag h =>
    have stops : Stops g text (.terminal t) pos _ := .terminal
    rw [h] at stops
    exact stops
  | undefined h => exact .undefined h
  | chosen h hi _ _ matched before =>
    have stops := Stops.ref h (firstStops_of_index hi matched (by simp [stopOf, Except.map]) before)
    rw [← Tree.asRule_eq]
    simpa [stopOf, Except.map] using stops
  | chosenError h hi _ _ failed before =>
    exact .ref h (firstStops_of_index hi failed (by simp [stopOf, Except.map]) before)
  | noneChosen h _ all => exact .ref h (firstStops_none all)
  | sequence length _ chain => exact .sequence (chainStops_of_linked length chain)
  | sequenceBroken item _ _ chain last =>
    rw [stopOf_broken] at last ⊢
    exact .sequence (chainStops_of_broken item chain last)
  | once _ matched => exact .once matched
  | noOnce _ failed => exact .noOnce failed
  | onceError _ failed => exact .onceError failed
  | @many inner arity pos tag ts o ha _ grows _ halts chain last =>
    have halt : LoopStops g text inner (stopAfter pos ts) (.ok (some (stopAfter pos ts))) := by
      refine .halt last fun stop hstop => ?_
      obtain ⟨t, ht, rfl⟩ := Option.map_eq_some_iff.mp hstop
      exact halts t ht
    have loop := loopStops_of_linked chain grows halt
    rcases ha with rfl | ⟨rfl, hne⟩
    · exact .many loop
    · cases ts with
      | nil => exact absurd rfl hne
      | cons t ts => exact .some (chain 0 t rfl) loop
  | @manyError inner arity pos tag ts e ha _ grows _ chain last =>
    have loop := loopStops_of_linked chain grows (.error last)
    cases arity with
    | zeroOrOne => exact absurd rfl ha
    | zeroOrMore => exact .many loop
    | oneOrMore =>
      cases ts with
      | nil => exact .someBroken last (noMatch_broken (some e))
      | cons t ts => exact .some (chain 0 t rfl) loop
  | someEmpty matched empty ih =>
    have covers := matched.covers
    obtain rfl := Nat.le_antisymm empty covers.2.1
    refine .some ih (.halt ih ?_)
    rintro _ ⟨⟩
    exact empty
  | someNone _ failed => exact .someBroken failed (noMatch_broken none)
  | foreign => exact .foreign

/-! ### Where something stops, something is given -/

omit [Regex] in
theorem stopOf_eq_some {o : Outcome} {stop : Nat} (h : stopOf o = .ok (some stop)) :
    ∃ t, o = .ok (some t) ∧ t.stop = stop := by
  rcases o with e | _ | t
  · cases h
  · cases h
  · cases h
    exact ⟨t, rfl, rfl⟩

omit [Regex] in
theorem stopOf_eq_broken {o : Outcome} {b : Option EvalError} (h : stopOf o = broken b) :
    o = broken b := by
  rcases o with e | _ | t <;> cases b <;> simp_all [stopOf, Except.map, broken]

/-- The validator has something to say that stops there. -/
def Told (g : Grammar) (text : Text) (v : Validator) (pos : Nat) (tag : String) (x : Stop) : Prop :=
  ∃ o, Gives g text v pos tag o ∧ stopOf o = x

section Told

variable {v inner : Validator} {items alternatives : List Validator} {pos : Nat} {tag : String}
  {x : Stop}

theorem Told.gives_some {stop : Nat} (h : Told g text v pos tag (.ok (some stop))) :
    ∃ t, Gives g text v pos tag (.ok (some t)) ∧ t.stop = stop := by
  obtain ⟨o, ho, hx⟩ := h
  obtain ⟨t, rfl, ht⟩ := stopOf_eq_some hx
  exact ⟨t, ho, ht⟩

theorem Told.gives_broken {b : Option EvalError} (h : Told g text v pos tag (broken b)) :
    Gives g text v pos tag (broken b) := by
  obtain ⟨o, ho, hx⟩ := h
  exact stopOf_eq_broken hx ▸ ho

/-- All alternatives fail, or one of them does not and all before it do. -/
def ToldFirst (g : Grammar) (text : Text) (alternatives : List Validator) (pos : Nat)
    (tag : String) (x : Stop) : Prop :=
  (x = .ok none ∧ ∀ w ∈ alternatives, Gives g text w pos tag (.ok none)) ∨
    ∃ i v, alternatives[i]? = some v ∧ Told g text v pos tag x ∧ x ≠ .ok none ∧
      ∀ w ∈ alternatives.take i, Gives g text w pos tag (.ok none)

/-- The items have trees that are linked, all of them or up to one that breaks. -/
def ToldChain (g : Grammar) (text : Text) (items : List Validator) (pos : Nat) (tag : String)
    (x : Stop) : Prop :=
  ∃ ts, Linked (fun i p t => ∀ v, items[i]? = some v → Gives g text v p tag (.ok (some t))) pos ts ∧
    (ts.length = items.length ∧ x = .ok (some (stopAfter pos ts)) ∨
      ∃ v b, items[ts.length]? = some v ∧ Gives g text v (stopAfter pos ts) tag (broken b) ∧
        x = broken b)

/-- The rounds have trees that are linked and grow, up to one that halts or ends in an error. -/
def ToldLoop (g : Grammar) (text : Text) (inner : Validator) (pos : Nat) (tag : String)
    (x : Stop) : Prop :=
  ∃ ts, Linked (fun _ p t => Gives g text inner p tag (.ok (some t))) pos ts ∧
    Linked (fun _ p t => p < t.stop) pos ts ∧
    ((∃ o, Gives g text inner (stopAfter pos ts) tag (.ok o) ∧
        (∀ t, o = some t → t.stop ≤ stopAfter pos ts) ∧ x = .ok (some (stopAfter pos ts))) ∨
      ∃ e, Gives g text inner (stopAfter pos ts) tag (.error e) ∧ x = .error e)

theorem told_ref {name : String} (h : g.rule? name = some alternatives)
    (told : ToldFirst g text alternatives pos name x) : Told g text (.ref name) pos tag x := by
  rcases told with ⟨rfl, all⟩ | ⟨i, v, hi, ⟨o, ho, rfl⟩, hx, before⟩
  · exact ⟨_, .noneChosen h all, rfl⟩
  · rcases o with e | _ | t
    · exact ⟨_, .chosenError h hi ho before, rfl⟩
    · exact absurd rfl hx
    · refine ⟨_, .chosen h hi ho before, ?_⟩
      rw [← Tree.asRule_eq]
      simp [stopOf, Except.map]

theorem told_sequence (told : ToldChain g text items pos tag x) :
    Told g text (.sequence items) pos tag x := by
  obtain ⟨ts, chain, ⟨hl, rfl⟩ | ⟨v, b, hv, last, rfl⟩⟩ := told
  · exact ⟨_, .sequence hl chain, rfl⟩
  · exact ⟨_, .sequenceBroken hv chain last, stopOf_broken b⟩

theorem told_many (told : ToldLoop g text inner pos tag x) :
    Told g text (.quantified inner .zeroOrMore) pos tag x := by
  obtain ⟨ts, chain, grows, ⟨o, last, halts, rfl⟩ | ⟨e, last, rfl⟩⟩ := told
  · exact ⟨_, .many (Or.inl rfl) chain grows last halts, rfl⟩
  · exact ⟨_, .manyError (by simp) chain grows last, rfl⟩

/-- If the first match is there, the rounds after it are none only if it is empty. -/
theorem told_some [LawfulRegex] {t : Tree} (first : Gives g text inner pos tag (.ok (some t)))
    (told : ToldLoop g text inner pos tag x) :
    Told g text (.quantified inner .oneOrMore) pos tag x := by
  obtain ⟨ts, chain, grows, last⟩ := told
  cases ts with
  | nil =>
    rcases last with ⟨o, last, halts, rfl⟩ | ⟨e, last, rfl⟩
    · obtain rfl := Except.ok.inj (last.unique first)
      have empty : t.stop ≤ pos := halts t rfl
      refine ⟨_, .someEmpty first empty, ?_⟩
      exact congrArg (fun n => Except.ok (some n)) (Nat.le_antisymm empty first.covers.2.1)
    · cases last.unique first
  | cons u us =>
    rcases last with ⟨o, last, halts, rfl⟩ | ⟨e, last, rfl⟩
    · exact ⟨_, .many (Or.inr ⟨rfl, by simp⟩) chain grows last halts, rfl⟩
    · exact ⟨_, .manyError (by simp) chain grows last, rfl⟩

theorem told_someBroken (first : Told g text inner pos tag x) (hx : NoMatch x) :
    Told g text (.quantified inner .oneOrMore) pos tag x := by
  obtain ⟨b, rfl⟩ := hx.exists_broken
  cases b with
  | none => exact ⟨_, .someNone (first.gives_broken (b := none)), rfl⟩
  | some e =>
    exact ⟨_, .manyError (by simp) linked_nil linked_nil (first.gives_broken (b := some e)), rfl⟩

theorem toldChain_cons {t : Tree} (first : Gives g text v pos tag (.ok (some t)))
    (told : ToldChain g text items t.stop tag x) : ToldChain g text (v :: items) pos tag x := by
  obtain ⟨ts, chain, last⟩ := told
  refine ⟨t :: ts, linked_cons.mpr ⟨?_, by simpa using chain⟩, ?_⟩
  · rintro _ ⟨⟩
    exact first
  · rw [stopAfter_cons, List.length_cons, List.length_cons]
    rcases last with ⟨hl, hx⟩ | ⟨w, b, hw, hb, hx⟩
    · exact Or.inl ⟨congrArg (· + 1) hl, hx⟩
    · exact Or.inr ⟨w, b, hw, hb, hx⟩

theorem toldLoop_next {t : Tree} (first : Gives g text inner pos tag (.ok (some t)))
    (hlt : pos < t.stop) (told : ToldLoop g text inner t.stop tag x) :
    ToldLoop g text inner pos tag x := by
  obtain ⟨ts, chain, grows, last⟩ := told
  refine ⟨t :: ts, linked_cons.mpr ⟨first, chain⟩, linked_cons.mpr ⟨hlt, grows⟩, ?_⟩
  rwa [stopAfter_cons]

theorem toldFirst_skip (first : Gives g text v pos tag (.ok none))
    (told : ToldFirst g text alternatives pos tag x) :
    ToldFirst g text (v :: alternatives) pos tag x := by
  rcases told with ⟨hx, all⟩ | ⟨i, w, hi, hw, hx, before⟩
  · exact Or.inl ⟨hx, List.forall_mem_cons.mpr ⟨first, all⟩⟩
  · exact Or.inr ⟨i + 1, w, hi, hw, hx, List.forall_mem_cons.mpr ⟨first, before⟩⟩

end Told

mutual

/-- Whatever tag is carried, what stops has been given. -/
theorem Stops.told [LawfulRegex] {v : Validator} {pos : Nat} {x : Stop} (h : Stops g text v pos x)
    (tag : String) : Told g text v pos tag x := by
  match h with
  | .terminal (t := t) =>
    cases ht : t.matched? text pos with
    | none => exact ⟨_, .refused ht, rfl⟩
    | some taken => exact ⟨_, .taken ht, rfl⟩
  | .undefined h => exact ⟨_, .undefined h, rfl⟩
  | .ref h hs => exact told_ref h (hs.told _)
  | .sequence h => exact told_sequence (h.told tag)
  | .once h =>
    obtain ⟨t, ht, rfl⟩ := (h.told tag).gives_some
    exact ⟨_, .once ht, rfl⟩
  | .noOnce h => exact ⟨_, .noOnce ((h.told tag).gives_broken (b := none)), rfl⟩
  | .onceError (e := e) h => exact ⟨_, .onceError ((h.told tag).gives_broken (b := some e)), rfl⟩
  | .many h => exact told_many (h.told tag)
  | .some h hs =>
    have rounds := hs.told tag
    obtain ⟨t, ht, rfl⟩ := (h.told tag).gives_some
    exact told_some ht rounds
  | .someBroken h hx => exact told_someBroken (h.told tag) hx
  | .foreign => exact ⟨_, .foreign, rfl⟩

theorem FirstStops.told [LawfulRegex] {alternatives : List Validator} {pos : Nat} {x : Stop}
    (h : FirstStops g text alternatives pos x) (tag : String) :
    ToldFirst g text alternatives pos tag x := by
  match h with
  | .nil => exact Or.inl ⟨rfl, by simp⟩
  | .skip h hs => exact toldFirst_skip ((h.told tag).gives_broken (b := none)) (hs.told tag)
  | .take h hx => exact Or.inr ⟨0, _, rfl, h.told tag, hx, by simp⟩

theorem ChainStops.told [LawfulRegex] {items : List Validator} {pos : Nat} {x : Stop}
    (h : ChainStops g text items pos x) (tag : String) : ToldChain g text items pos tag x := by
  match h with
  | .nil => exact ⟨[], linked_nil, Or.inl ⟨rfl, rfl⟩⟩
  | .next h hs =>
    have others := hs.told tag
    obtain ⟨t, ht, rfl⟩ := (h.told tag).gives_some
    exact toldChain_cons ht others
  | .broken h hx =>
    have last := h.told tag
    obtain ⟨b, rfl⟩ := hx.exists_broken
    exact ⟨[], linked_nil, Or.inr ⟨_, b, rfl, last.gives_broken, rfl⟩⟩

theorem LoopStops.told [LawfulRegex] {inner : Validator} {pos : Nat} {x : Stop}
    (h : LoopStops g text inner pos x) (tag : String) : ToldLoop g text inner pos tag x := by
  match h with
  | .halt (o := none) h hle =>
    exact ⟨[], linked_nil, linked_nil,
      Or.inl ⟨none, (h.told tag).gives_broken (b := none), by simp, rfl⟩⟩
  | .halt (o := some stop) h hle =>
    obtain ⟨t, ht, rfl⟩ := (h.told tag).gives_some
    exact ⟨[], linked_nil, linked_nil, Or.inl ⟨some t, ht, by rintro _ ⟨⟩; exact hle _ rfl, rfl⟩⟩
  | .next h hlt hs =>
    have others := hs.told tag
    obtain ⟨t, ht, rfl⟩ := (h.told tag).gives_some
    exact toldLoop_next ht hlt others
  | .error (e := e) h =>
    exact ⟨[], linked_nil, linked_nil, Or.inr ⟨e, (h.told tag).gives_broken (b := some e), rfl⟩⟩

end

variable [LawfulRegex]

/-- What a validator stops at is where evaluations stop that end, whatever tag is carried. -/
theorem stops_iff {v : Validator} {pos : Nat} {x : Stop} (tag : String) :
    Stops g text v pos x ↔
      x ≠ .error .depthExceeded ∧ ∃ depth, stopOf (evaluate g text depth v pos tag) = x := by
  constructor
  · intro h
    obtain ⟨o, ho, rfl⟩ := h.told tag
    obtain ⟨hne, depth, hd⟩ := gives_iff.mp ho
    refine ⟨fun hx => hne ?_, depth, by rw [hd]⟩
    exact stopOf_eq_broken (b := some .depthExceeded) hx
  · rintro ⟨hne, depth, rfl⟩
    have given : Gives g text v pos tag (evaluate g text depth v pos tag) := by
      refine gives_iff.mpr ⟨fun ho => hne ?_, depth, rfl⟩
      rw [ho]
      rfl
    exact stops_of_gives given

theorem Stops.unique {v : Validator} {pos : Nat} {x y : Stop} (h : Stops g text v pos x)
    (h' : Stops g text v pos y) : x = y := by
  obtain ⟨o, ho, rfl⟩ := h.told ""
  obtain ⟨o', ho', rfl⟩ := h'.told ""
  rw [ho.unique ho']

end OrderedGrammar.Matching

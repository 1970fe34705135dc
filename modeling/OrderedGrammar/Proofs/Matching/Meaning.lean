import OrderedGrammar.Points.Grammar
import OrderedGrammar.Proofs.Matching.Depth
import OrderedGrammar.Proofs.Pattern.Lawful

/-!
What a grammar means, told without an order of steps. `Gives g text v pos tag o` says that `o` is
what the validator `v` has to say at `pos`: a reference goes by the least of its alternatives that
does not fail, a sequence by a chain of places, a quantifier by the longest chain of matches of
which none is empty. Whenever an evaluation ends, it ends with what is given, and what is given is
unique (`gives_iff`, `Gives.unique`).
-/

namespace OrderedGrammar

/-- What a node holds: the text it took, one rule node, or a list of nodes. -/
inductive Tree.Content
  | text (s : String)
  | single (child : Tree)
  | list (children : List Tree)

namespace Tree

/-- What the node holds. -/
def content : Tree → Content
  | text _ s => .text s
  | single _ c => .single c
  | list _ cs => .list cs

/-- The node that tells this of itself and holds this. -/
def ofContent (i : NodeInfo) : Content → Tree
  | .text s => text i s
  | .single c => single i c
  | .list cs => list i cs

/-- The node of a rule holds the node of its alternative if that is a rule node too, and takes over
its content otherwise. -/
theorem asRule_eq (name : String) (t : Tree) : t.asRule name =
    ofContent ⟨name, true, t.start, t.stop⟩ (if t.isRule then .single t else t.content) := by
  unfold asRule
  split
  · rfl
  · cases t <;> rfl

end Tree

namespace Matching

section Meaning

variable [Regex]

/-- What a validator has to say at an offset: a tree, no match, or an error. Nodes outside every
rule carry the tag. -/
inductive Gives (g : Grammar) (text : Text) : Validator → Nat → String → Outcome → Prop
  /-- A terminal takes what its pattern matches. -/
  | taken {t pos tag taken} (h : t.matched? text pos = some taken) :
    Gives g text (.terminal t) pos tag
      (.ok (some (.text ⟨tag, false, pos, pos + taken.length⟩ taken)))
  | refused {t pos tag} (h : t.matched? text pos = none) :
    Gives g text (.terminal t) pos tag (.ok none)
  | undefined {name pos tag} (h : g.rule? name = none) :
    Gives g text (.ref name) pos tag (.error (.undefinedRule name))
  /-- The least alternative that matches is chosen, all earlier ones failing at the same place. -/
  | chosen {name pos tag alternatives i v t} (h : g.rule? name = some alternatives)
    (hi : alternatives[i]? = some v) (matched : Gives g text v pos name (.ok (some t)))
    (before : ∀ w ∈ alternatives.take i, Gives g text w pos name (.ok none)) :
    Gives g text (.ref name) pos tag (.ok (some
      (.ofContent ⟨name, true, t.start, t.stop⟩ (if t.isRule then .single t else t.content))))
  | chosenError {name pos tag alternatives i v e} (h : g.rule? name = some alternatives)
    (hi : alternatives[i]? = some v) (failed : Gives g text v pos name (.error e))
    (before : ∀ w ∈ alternatives.take i, Gives g text w pos name (.ok none)) :
    Gives g text (.ref name) pos tag (.error e)
  | noneChosen {name pos tag alternatives} (h : g.rule? name = some alternatives)
    (all : ∀ w ∈ alternatives, Gives g text w pos name (.ok none)) :
    Gives g text (.ref name) pos tag (.ok none)
  /-- A chain of trees, one for each item, each beginning where the one before it ends. -/
  | sequence {items pos tag ts} (length : ts.length = items.length)
    (chain : Linked (fun i p t => ∀ v, items[i]? = some v → Gives g text v p tag (.ok (some t)))
      pos ts) :
    Gives g text (.sequence items) pos tag
      (.ok (some (.list ⟨tag, false, pos, stopAfter pos ts⟩ ts)))
  /-- The chain breaks at an item. -/
  | sequenceBroken {items pos tag ts v b} (item : items[ts.length]? = some v)
    (chain : Linked (fun i p t => ∀ v, items[i]? = some v → Gives g text v p tag (.ok (some t)))
      pos ts)
    (last : Gives g text v (stopAfter pos ts) tag (broken b)) :
    Gives g text (.sequence items) pos tag (broken b)
  /-- At most one match is tried for. -/
  | once {inner pos tag t} (matched : Gives g text inner pos tag (.ok (some t))) :
    Gives g text (.quantified inner .zeroOrOne) pos tag (.ok (some t))
  | noOnce {inner pos tag} (failed : Gives g text inner pos tag (.ok none)) :
    Gives g text (.quantified inner .zeroOrOne) pos tag
      (.ok (some (.list ⟨tag, false, pos, pos⟩ [])))
  | onceError {inner pos tag e} (failed : Gives g text inner pos tag (.error e)) :
    Gives g text (.quantified inner .zeroOrOne) pos tag (.error e)
  /-- The chain of matches that are not empty goes on up to where there is none. -/
  | many {inner arity pos tag ts o} (ha : arity = .zeroOrMore ∨ arity = .oneOrMore ∧ ts ≠ [])
    (chain : Linked (fun _ p t => Gives g text inner p tag (.ok (some t))) pos ts)
    (grows : Linked (fun _ p t => p < t.stop) pos ts)
    (last : Gives g text inner (stopAfter pos ts) tag (.ok o))
    (halts : ∀ t, o = some t → t.stop ≤ stopAfter pos ts) :
    Gives g text (.quantified inner arity) pos tag
      (.ok (some (.list ⟨tag, false, pos, stopAfter pos ts⟩ ts)))
  | manyError {inner arity pos tag ts e} (ha : arity ≠ .zeroOrOne)
    (chain : Linked (fun _ p t => Gives g text inner p tag (.ok (some t))) pos ts)
    (grows : Linked (fun _ p t => p < t.stop) pos ts)
    (last : Gives g text inner (stopAfter pos ts) tag (.error e)) :
    Gives g text (.quantified inner arity) pos tag (.error e)
  /-- Where one match is required and it is empty, it is kept. -/
  | someEmpty {inner pos tag t} (matched : Gives g text inner pos tag (.ok (some t)))
    (empty : t.stop ≤ pos) :
    Gives g text (.quantified inner .oneOrMore) pos tag
      (.ok (some (.list ⟨tag, false, pos, t.stop⟩ [t])))
  | someNone {inner pos tag} (failed : Gives g text inner pos tag (.ok none)) :
    Gives g text (.quantified inner .oneOrMore) pos tag (.ok none)
  | foreign {x pos tag} : Gives g text (.foreign x) pos tag (.error (.unknownValidator x))

variable {g : Grammar} {text : Text}

/-! ### What an evaluation ends with is given -/

section Soundness

variable {depth : Nat}

/-- Within a depth, all evaluations that end do so with what is given. -/
def SoundWithin (g : Grammar) (text : Text) (depth : Nat) : Prop :=
  ∀ v pos tag o, evaluate g text depth v pos tag = o → o ≠ .error .depthExceeded →
    Gives g text v pos tag o

theorem gives_ref (ih : SoundWithin g text depth) {name tag : String} {pos : Nat} {o : Outcome}
    (h : evaluate g text (depth + 1) (.ref name) pos tag = o) (ho : o ≠ .error .depthExceeded) :
    Gives g text (.ref name) pos tag o := by
  cases hr : g.rule? name with
  | none =>
    rw [evaluate_ref_of_none hr] at h
    exact h ▸ .undefined hr
  | some alternatives =>
    rw [evaluate_ref hr] at h
    rcases hf : firstMatch (fun v => evaluate g text depth v pos name) alternatives with e | _ | t
    · rw [hf] at h; cases h
      obtain ⟨i, v, hi, hv, before⟩ := (firstMatch_eq_iff (by simp)).mp hf
      exact .chosenError hr hi (ih _ _ _ _ hv ho)
        fun w hw => ih _ _ _ _ (before w hw) (by simp)
    · rw [hf] at h; cases h
      exact .noneChosen hr fun w hw => ih _ _ _ _ (firstMatch_eq_none_iff.mp hf w hw) (by simp)
    · rw [hf] at h; cases h
      obtain ⟨i, v, hi, hv, before⟩ := (firstMatch_eq_iff (by simp)).mp hf
      change Gives g text (.ref name) pos tag (.ok (some (t.asRule name)))
      rw [Tree.asRule_eq]
      exact .chosen hr hi (ih _ _ _ _ hv (by simp)) fun w hw => ih _ _ _ _ (before w hw) (by simp)

theorem gives_sequence (ih : SoundWithin g text depth) {items : List Validator} {tag : String}
    {pos : Nat} {o : Outcome} (h : evaluate g text (depth + 1) (.sequence items) pos tag = o)
    (ho : o ≠ .error .depthExceeded) : Gives g text (.sequence items) pos tag o := by
  rw [evaluate_sequence] at h
  have passed {ts} (hp : Passed (fun v p => evaluate g text depth v p tag) items pos ts) :
      Linked (fun i p t => ∀ v, items[i]? = some v → Gives g text v p tag (.ok (some t))) pos ts :=
    hp.imp fun _ _ _ hq v hv => ih _ _ _ _ (hq v hv) (by simp)
  rcases some_or_broken o with ⟨t, rfl⟩ | ⟨b, rfl⟩
  · obtain ⟨ts, hts, rfl⟩ := map_eq_some_iff.mp h
    obtain ⟨hl, hp⟩ := chain_eq_some_iff.mp hts
    exact .sequence hl (passed hp)
  · obtain ⟨ts, v, hv, hp, hb⟩ := chain_eq_broken_iff.mp (map_eq_broken_iff.mp h)
    exact .sequenceBroken hv (passed hp) (ih _ _ _ _ hb ho)

theorem gives_opt (ih : SoundWithin g text depth) {inner : Validator} {tag : String} {pos : Nat}
    {o : Outcome} (h : evaluate g text (depth + 1) (.quantified inner .zeroOrOne) pos tag = o)
    (ho : o ≠ .error .depthExceeded) : Gives g text (.quantified inner .zeroOrOne) pos tag o := by
  rw [evaluate_opt] at h
  rcases hi : evaluate g text depth inner pos tag with e | _ | t
  · rw [hi] at h; cases h
    exact .onceError (ih _ _ _ _ hi ho)
  · rw [hi] at h; cases h
    exact .noOnce (ih _ _ _ _ hi (by simp))
  · rw [hi] at h; cases h
    exact .once (ih _ _ _ _ hi (by simp))

theorem gives_rounds [LawfulRegex] (ih : SoundWithin g text depth) {inner : Validator}
    {arity : Arity} {tag : String} {pos : Nat} {o : Outcome}
    (h : evaluate g text (depth + 1) (.quantified inner arity) pos tag = o)
    (ho : o ≠ .error .depthExceeded)
    (ha : arity = .zeroOrMore ∨
      arity = .oneOrMore ∧ ¬ Halts (fun p => evaluate g text depth inner p tag) pos) :
    Gives g text (.quantified inner arity) pos tag o := by
  have hb : Bounded text fun p => evaluate g text depth inner p tag :=
    bounded_evaluate depth inner tag
  rw [evaluate_rounds ha] at h
  cases hi : iterate (fun p => evaluate g text depth inner p tag) (text.size + 2) pos with
  | error e =>
    rw [hi] at h; cases h
    obtain ⟨ts, hr, he⟩ := (iterate_eq_error_iff hb (by omega) (by omega)).mp hi
    refine .manyError ?_ (hr.imp fun _ _ _ hq => ih _ _ _ _ hq.1 (by simp))
      (hr.imp fun _ _ _ hq => hq.2) (ih _ _ _ _ he ho)
    rintro rfl
    simp at ha
  | ok ts =>
    rw [hi] at h; cases h
    obtain ⟨hr, hh⟩ := (iterate_eq_ok_iff hb (by omega) (by omega)).mp hi
    have hts : arity = .zeroOrMore ∨ arity = .oneOrMore ∧ ts ≠ [] := by
      refine ha.imp_right fun some => ⟨some.1, ?_⟩
      rintro rfl
      exact some.2 hh
    have chain := hr.imp fun _ _ _ hq => ih _ _ _ _ hq.1 (by simp)
    have grows := hr.imp fun _ _ _ hq => hq.2
    rcases hh with hn | ⟨u, hu, hle⟩
    · exact .many hts chain grows (ih _ _ _ _ hn (by simp)) (by simp)
    · refine .many hts chain grows (ih _ _ _ _ hu (by simp)) ?_
      rintro _ ⟨⟩
      exact hle

theorem soundWithin [LawfulRegex] (depth : Nat) : SoundWithin g text depth := by
  induction depth with
  | zero =>
    intro v pos tag o h ho
    rw [evaluate] at h
    exact absurd h.symm ho
  | succ depth ih =>
    intro v pos tag o h ho
    cases v with
    | terminal t =>
      rw [evaluate, Terminal.evaluate] at h
      cases hm : t.matched? text pos with
      | none => rw [hm] at h; exact h ▸ .refused hm
      | some taken => rw [hm] at h; exact h ▸ .taken hm
    | ref name => exact gives_ref ih h ho
    | quantified inner arity =>
      cases arity with
      | zeroOrOne => exact gives_opt ih h ho
      | zeroOrMore => exact gives_rounds ih h ho (Or.inl rfl)
      | oneOrMore =>
        by_cases hh : Halts (fun p => evaluate g text depth inner p tag) pos
        · rw [evaluate] at h
          rcases hh with hn | ⟨u, hu, hle⟩
          · rw [repetition_required_none hn] at h
            exact h ▸ .someNone (ih _ _ _ _ hn (by simp))
          · rw [repetition_required_empty hu hle] at h
            exact h ▸ .someEmpty (ih _ _ _ _ hu (by simp)) hle
        · exact gives_rounds ih h ho (Or.inr ⟨rfl, hh⟩)
    | sequence items => exact gives_sequence ih h ho
    | foreign x =>
      rw [evaluate] at h
      exact h ▸ .foreign

end Soundness

/-! ### What is given is what evaluations end with -/

/-- From some depth on, evaluations end in this way. -/
def Ends (g : Grammar) (text : Text) (v : Validator) (pos : Nat) (tag : String) (o : Outcome) :
    Prop :=
  ∃ n, ∀ d, n ≤ d → evaluate g text d v pos tag = o

theorem Ends.unique {v : Validator} {pos : Nat} {tag : String} {o o' : Outcome}
    (h : Ends g text v pos tag o) (h' : Ends g text v pos tag o') : o = o' := by
  obtain ⟨n, hn⟩ := h
  obtain ⟨m, hm⟩ := h'
  exact (hn (max n m) (Nat.le_max_left _ _)).symm.trans (hm (max n m) (Nat.le_max_right _ _))

theorem ends_of_evaluate {v : Validator} {pos depth : Nat} {tag : String} {o : Outcome}
    (h : evaluate g text depth v pos tag = o) (ends : o ≠ .error .depthExceeded) :
    Ends g text v pos tag o :=
  ⟨depth, fun _ hd => evaluate_mono h ends hd⟩

/-- An evaluation ends within some depth, or runs out of every depth. -/
theorem exists_ends (g : Grammar) (text : Text) (v : Validator) (pos : Nat) (tag : String) :
    ∃ o, Ends g text v pos tag o := by
  by_cases h : ∃ depth, evaluate g text depth v pos tag ≠ .error .depthExceeded
  · obtain ⟨depth, ends⟩ := h
    exact ⟨_, ends_of_evaluate rfl ends⟩
  · refine ⟨.error .depthExceeded, 0, fun depth _ => ?_⟩
    by_contra ends
    exact h ⟨depth, ends⟩

/-- A step whose parts end from some depth on ends itself from the next depth on. -/
theorem Ends.step {v : Validator} {pos : Nat} {tag : String} {o : Outcome}
    (h : ∃ n, ∀ d, n ≤ d → evaluate g text (d + 1) v pos tag = o) : Ends g text v pos tag o := by
  obtain ⟨n, hn⟩ := h
  refine ⟨n + 1, fun d hd => ?_⟩
  obtain ⟨d, rfl⟩ : ∃ d', d = d' + 1 := ⟨d - 1, by omega⟩
  exact hn d (by omega)

omit [Regex] in
/-- What holds of each member from some depth on holds of all from some depth on. -/
theorem common_of_mem {α : Type} {P : α → Nat → Prop} {l : List α}
    (h : ∀ a ∈ l, ∃ n, ∀ d, n ≤ d → P a d) : ∃ n, ∀ d, n ≤ d → ∀ a ∈ l, P a d := by
  induction l with
  | nil => exact ⟨0, fun _ _ a ha => absurd ha List.not_mem_nil⟩
  | cons a l ih =>
    obtain ⟨⟨n, hn⟩, hl⟩ := List.forall_mem_cons.mp h
    obtain ⟨m, hm⟩ := ih hl
    exact ⟨max n m, fun d hd => List.forall_mem_cons.mpr ⟨hn d (by omega), hm d (by omega)⟩⟩

omit [Regex] in
theorem common_of_linked {R : Nat → Nat → Nat → Tree → Prop} {ts : List Tree} {pos : Nat}
    (h : Linked (fun i p t => ∃ n, ∀ d, n ≤ d → R d i p t) pos ts) :
    ∃ n, ∀ d, n ≤ d → Linked (R d) pos ts := by
  induction ts generalizing pos R with
  | nil => exact ⟨0, fun _ _ => linked_nil⟩
  | cons t ts ih =>
    obtain ⟨⟨n, hn⟩, hr⟩ := linked_cons.mp h
    obtain ⟨m, hm⟩ := ih (R := fun d i => R d (i + 1)) hr
    exact ⟨max n m, fun d hd => linked_cons.mpr ⟨hn d (by omega), hm d (by omega)⟩⟩

/-- The items of a chain pass from some depth on. -/
theorem passed_of_ends {items : List Validator} {tag : String} {pos : Nat} {ts : List Tree}
    (h : Linked (fun i p t => ∀ v, items[i]? = some v → Ends g text v p tag (.ok (some t)))
      pos ts) :
    ∃ n, ∀ d, n ≤ d → Passed (fun v p => evaluate g text d v p tag) items pos ts := by
  refine common_of_linked (h.imp fun i p t hi => ?_)
  cases hv : items[i]? with
  | none => exact ⟨0, fun d _ v hv => by cases hv⟩
  | some v =>
    obtain ⟨n, hn⟩ := hi v hv
    refine ⟨n, fun d hd w hw => ?_⟩
    cases Option.some.inj hw
    exact hn d hd

/-- The rounds of a repetition are made from some depth on. -/
theorem rounds_of_ends {inner : Validator} {tag : String} {pos : Nat} {ts : List Tree}
    (chain : Linked (fun _ p t => Ends g text inner p tag (.ok (some t))) pos ts)
    (grows : Linked (fun _ p t => p < t.stop) pos ts) :
    ∃ n, ∀ d, n ≤ d → Rounds (fun p => evaluate g text d inner p tag) pos ts := by
  obtain ⟨n, hn⟩ := common_of_linked
    (R := fun d _ p t => evaluate g text d inner p tag = .ok (some t)) chain
  exact ⟨n, fun d hd => (hn d hd).and grows⟩

theorem ends_of_gives [LawfulRegex] {v : Validator} {pos : Nat} {tag : String} {o : Outcome}
    (h : Gives g text v pos tag o) : Ends g text v pos tag o := by
  induction h with
  | taken h => exact .step ⟨0, fun d _ => by rw [evaluate, Terminal.evaluate, h]; rfl⟩
  | refused h => exact .step ⟨0, fun d _ => by rw [evaluate, Terminal.evaluate, h]; rfl⟩
  | undefined h => exact .step ⟨0, fun d _ => evaluate_ref_of_none h⟩
  | chosen h hi _ _ matched before =>
    obtain ⟨n, hn⟩ := matched
    obtain ⟨m, hm⟩ := common_of_mem before
    refine .step ⟨max n m, fun d hd => ?_⟩
    rw [evaluate_ref h, (firstMatch_eq_iff (by simp)).mpr
      ⟨_, _, hi, hn d (by omega), hm d (by omega)⟩, ← Tree.asRule_eq]
    rfl
  | chosenError h hi _ _ failed before =>
    obtain ⟨n, hn⟩ := failed
    obtain ⟨m, hm⟩ := common_of_mem before
    refine .step ⟨max n m, fun d hd => ?_⟩
    rw [evaluate_ref h, (firstMatch_eq_iff (by simp)).mpr
      ⟨_, _, hi, hn d (by omega), hm d (by omega)⟩]
    rfl
  | noneChosen h _ all =>
    obtain ⟨m, hm⟩ := common_of_mem all
    refine .step ⟨m, fun d hd => ?_⟩
    rw [evaluate_ref h, firstMatch_eq_none_iff.mpr (hm d hd)]
    rfl
  | sequence length _ chain =>
    obtain ⟨n, hn⟩ := passed_of_ends chain
    refine .step ⟨n, fun d hd => ?_⟩
    rw [evaluate_sequence, chain_eq_some_iff.mpr ⟨length, hn d hd⟩]
    rfl
  | sequenceBroken item _ _ chain last =>
    obtain ⟨n, hn⟩ := passed_of_ends chain
    obtain ⟨m, hm⟩ := last
    refine .step ⟨max n m, fun d hd => ?_⟩
    rw [evaluate_sequence, map_eq_broken_iff, chain_eq_broken_iff]
    exact ⟨_, _, item, hn d (by omega), hm d (by omega)⟩
  | once _ matched =>
    obtain ⟨n, hn⟩ := matched
    exact .step ⟨n, fun d hd => by rw [evaluate_opt, hn d hd]; rfl⟩
  | noOnce _ failed =>
    obtain ⟨n, hn⟩ := failed
    exact .step ⟨n, fun d hd => by rw [evaluate_opt, hn d hd]; rfl⟩
  | onceError _ failed =>
    obtain ⟨n, hn⟩ := failed
    exact .step ⟨n, fun d hd => by rw [evaluate_opt, hn d hd]; rfl⟩
  | @many inner arity pos tag ts o ha _ grows _ halts chain last =>
    obtain ⟨n, hn⟩ := rounds_of_ends chain grows
    obtain ⟨m, hm⟩ := last
    refine .step ⟨max n m, fun d hd => ?_⟩
    have hr := hn d (by omega)
    have hh : Halts (fun p => evaluate g text d inner p tag) (stopAfter pos ts) :=
      halts_of_le (hm d (by omega)) halts
    rw [evaluate_rounds (ha.imp_right fun some => ⟨some.1, fun hp => hp.not_rounds some.2 hr⟩),
      (iterate_eq_ok_iff (bounded_evaluate d _ _) (by omega) (by omega)).mpr ⟨hr, hh⟩]
    rfl
  | @manyError inner arity pos tag ts e ha _ grows _ chain last =>
    obtain ⟨n, hn⟩ := rounds_of_ends chain grows
    obtain ⟨m, hm⟩ := last
    refine .step ⟨max n m, fun d hd => ?_⟩
    have hr := hn d (by omega)
    have he := hm d (by omega)
    have hp : ¬ Halts (fun p => evaluate g text d inner p tag) pos := by
      cases ts with
      | nil => exact fun hp => hp.not_error he
      | cons t ts => exact fun hp => hp.not_rounds (by simp) hr
    have ha' : arity = .zeroOrMore ∨ arity = .oneOrMore := by cases arity <;> simp_all
    rw [evaluate_rounds (ha'.imp_right fun h => ⟨h, hp⟩),
      (iterate_eq_error_iff (bounded_evaluate d _ _) (by omega) (by omega)).mpr ⟨ts, hr, he⟩]
    rfl
  | someEmpty _ empty matched =>
    obtain ⟨n, hn⟩ := matched
    exact .step ⟨n, fun d hd => by rw [evaluate, repetition_required_empty (hn d hd) empty]; rfl⟩
  | someNone _ failed =>
    obtain ⟨n, hn⟩ := failed
    exact .step ⟨n, fun d hd => by rw [evaluate, repetition_required_none (hn d hd)]⟩
  | foreign => exact .step ⟨0, fun d _ => by rw [evaluate]⟩

/-! ### Agreement -/

/-- Running out of depth is nothing that a validator has to say. -/
theorem Gives.not_depthExceeded {v : Validator} {pos : Nat} {tag : String} {o : Outcome}
    (h : Gives g text v pos tag o) : o ≠ .error .depthExceeded := by
  induction h with
  | chosenError _ _ _ _ ih _ => exact ih
  | sequenceBroken _ _ _ _ ih => exact ih
  | onceError _ ih => exact ih
  | manyError _ _ _ _ _ ih => exact ih
  | _ => simp

variable [LawfulRegex]

theorem Gives.unique {v : Validator} {pos : Nat} {tag : String} {o o' : Outcome}
    (h : Gives g text v pos tag o) (h' : Gives g text v pos tag o') : o = o' :=
  (ends_of_gives h).unique (ends_of_gives h')

theorem gives_iff {v : Validator} {pos : Nat} {tag : String} {o : Outcome} :
    Gives g text v pos tag o ↔
      o ≠ .error .depthExceeded ∧ ∃ depth, evaluate g text depth v pos tag = o := by
  constructor
  · intro h
    obtain ⟨n, hn⟩ := ends_of_gives h
    exact ⟨h.not_depthExceeded, n, hn n (Nat.le_refl n)⟩
  · rintro ⟨ho, depth, h⟩
    exact soundWithin depth v pos tag o h ho

/-- Matching agrees with what a grammar means. What a validator has to say is what evaluations end
with that end at all, it is said within every depth from some depth on, and there is at most one
thing to say. -/
theorem matching_agrees_with_meaning (g : Grammar) (v : Validator) (text : Text) (pos : Nat)
    (rule : Option String) (o : Outcome) :
    (Gives g text v pos (rule.getD g.entry) o ↔ o ≠ .error .depthExceeded ∧
      ∃ depth, evaluate g text depth v pos (rule.getD g.entry) = o) ∧
    (Gives g text v pos (rule.getD g.entry) o →
      (∃ n, ∀ depth, n ≤ depth → evaluate g text depth v pos (rule.getD g.entry) = o) ∧
      ∀ o', Gives g text v pos (rule.getD g.entry) o' → o' = o) ∧
    (g.matchAt v text pos rule = o → o ≠ .error .depthExceeded →
      Gives g text v pos (rule.getD g.entry) o) := by
  refine ⟨gives_iff, fun h => ⟨ends_of_gives h, fun o' h' => h'.unique h⟩, fun h ho => ?_⟩
  exact gives_iff.mpr ⟨ho, depthLimit, h⟩

end Meaning

theorem separator_agrees_with_meaning :
    Gives Points.grammar #[',', '7'] (.ref "comma_wsp") 0 "list_of_points"
      (.ok (some (.list ⟨"comma_wsp", true, 0, 1⟩ [
        .text ⟨"comma", true, 0, 1⟩ ",", .list ⟨"comma_wsp", false, 1, 1⟩ []]))) :=
  (matching_agrees_with_meaning Points.grammar (.ref "comma_wsp") #[',', '7'] 0 none _).1.mpr
    ⟨by simp, 5, by cbv⟩

end Matching

end OrderedGrammar

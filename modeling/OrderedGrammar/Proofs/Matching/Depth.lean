import OrderedGrammar.Proofs.Matching.Simulation
import OrderedGrammar.Proofs.Regex.Terminals

/-!
The evaluation of a validator as a function of its depth. A node begins where it was asked for, and
ends in the text or where it began (`evaluate_bounds`). An evaluation that comes to an end within
some depth ends in the same way within every greater depth (`evaluate_mono`), so that the depth only
tells whether there is an answer and never which.
-/

namespace OrderedGrammar

@[simp] theorem Tree.stop_text (i : NodeInfo) (s : String) : (Tree.text i s).stop = i.stop := rfl
@[simp] theorem Tree.stop_list (i : NodeInfo) (ts : List Tree) :
    (Tree.list i ts).stop = i.stop := rfl

namespace Matching

/-! ### Bounds -/

/-- The tree begins at an offset and ends not before it, and in the text unless it is empty. -/
def Covers (text : Text) (pos : Nat) (t : Tree) : Prop :=
  t.start = pos ∧ pos ≤ t.stop ∧ t.stop ≤ max pos text.size

/-- Parts that follow one another cover a stretch of the text. -/
theorem covers_listNode {text : Text} {pos : Nat} {ts : List Tree} {tag : String}
    (h : Linked (fun _ p t => Covers text p t) pos ts) : Covers text pos (listNode tag pos ts) := by
  refine ⟨rfl, ?_⟩
  exact Linked.stopAfter_rel (Q := fun a b => a ≤ b ∧ b ≤ max a text.size)
    (fun p => ⟨Nat.le_refl p, Nat.le_max_left p _⟩)
    (fun h1 h2 => ⟨by omega, by omega⟩) (h.imp fun _ _ _ ht => ht.2)

/-- What a repetition lists has been taken by its attempts. -/
theorem repetition_eq_some {attempt : Nat → Outcome} {required : Bool} {text : Text} {pos : Nat}
    {tag : String} {t : Tree} (hb : Bounded text attempt)
    (h : repetition attempt required text pos tag = .ok (some t)) :
    ∃ ts, t = listNode tag pos ts ∧ Linked (fun _ p u => attempt p = .ok (some u)) pos ts := by
  have optional : repetition attempt false text pos tag = .ok (some t) →
      ∃ ts, t = listNode tag pos ts ∧ Linked (fun _ p u => attempt p = .ok (some u)) pos ts := by
    intro h
    rw [repetition_optional] at h
    cases hi : iterate attempt (text.size + 2) pos with
    | error e => rw [hi] at h; cases h
    | ok ts =>
      rw [hi] at h; cases h
      have hr := ((iterate_eq_ok_iff hb (by omega) (by omega)).mp hi).1
      exact ⟨ts, rfl, hr.imp fun _ _ _ h => h.1⟩
  cases required with
  | false => exact optional h
  | true =>
    by_cases hh : Halts attempt pos
    · rcases hh with hn | ⟨u, hu, hle⟩
      · rw [repetition_required_none hn] at h; cases h
      · rw [repetition_required_empty hu hle] at h; cases h
        exact ⟨[u], rfl, linked_cons.mpr ⟨hu, linked_nil⟩⟩
    · rw [repetition_required hh] at h
      exact optional h

section Bounds

variable [Regex] [LawfulRegex] {g : Grammar} {text : Text}

/-- A match begins where it was asked for and ends in the text, or where it began. -/
theorem evaluate_bounds {depth : Nat} {v : Validator} {pos : Nat} {tag : String} {t : Tree}
    (h : evaluate g text depth v pos tag = .ok (some t)) : Covers text pos t := by
  induction depth generalizing v pos tag t with
  | zero => rw [evaluate] at h; cases h
  | succ depth ih =>
    have bounded : ∀ (w : Validator) (tag : String),
        Bounded text fun p => evaluate g text depth w p tag :=
      fun w tag p u hu => (ih hu).2.2
    cases v with
    | terminal term =>
      rw [evaluate] at h
      obtain ⟨taken, hm, rfl⟩ := Terminal.evaluate_eq_some.mp (Except.ok.inj h)
      have := Terminal.length_matched?_le hm
      exact ⟨rfl, Nat.le_add_right _ _, by simp only [Tree.stop_text]; omega⟩
    | ref name =>
      cases hr : g.rule? name with
      | none => rw [evaluate_ref_of_none hr] at h; cases h
      | some alternatives =>
        rw [evaluate_ref hr, map_eq_some_iff] at h
        obtain ⟨u, hu, rfl⟩ := h
        obtain ⟨_, w, _, hw, -⟩ := (firstMatch_eq_iff (by simp)).mp hu
        have := ih hw
        exact ⟨by simp [this.1], by simp [this.2.1], by simp [this.2.2]⟩
    | quantified inner arity =>
      cases arity with
      | zeroOrOne =>
        rw [evaluate_opt] at h
        rcases ho : evaluate g text depth inner pos tag with e | _ | u
        · rw [ho] at h; cases h
        · rw [ho] at h; cases h
          exact covers_listNode linked_nil
        · rw [ho] at h; cases h
          exact ih ho
      | zeroOrMore =>
        rw [evaluate] at h
        obtain ⟨ts, rfl, hl⟩ := repetition_eq_some (bounded inner tag) h
        exact covers_listNode (hl.imp fun _ _ _ hu => ih hu)
      | oneOrMore =>
        rw [evaluate] at h
        obtain ⟨ts, rfl, hl⟩ := repetition_eq_some (bounded inner tag) h
        exact covers_listNode (hl.imp fun _ _ _ hu => ih hu)
    | sequence items =>
      rw [evaluate_sequence, map_eq_some_iff] at h
      obtain ⟨ts, hts, rfl⟩ := h
      obtain ⟨hl, hp⟩ := chain_eq_some_iff.mp hts
      have taken := Linked.items (R := fun v p u => evaluate g text depth v p tag = .ok (some u))
        hp (Nat.le_of_eq hl)
      refine covers_listNode (taken.imp ?_)
      rintro _ _ _ ⟨_, _, hu⟩
      exact ih hu
    | foreign x => rw [evaluate] at h; cases h

theorem bounded_evaluate (depth : Nat) (v : Validator) (tag : String) :
    Bounded text fun p => evaluate g text depth v p tag :=
  fun _ _ h => (evaluate_bounds h).2.2

end Bounds

/-! ### More depth -/

/-- Unless the first ran out of depth, the second is the same. -/
def Extends {α : Type} (x y : Except EvalError α) : Prop :=
  x ≠ .error .depthExceeded → y = x

/-- More depth for the second does no harm. -/
theorem Tracks.extend {α β : Type} {R : α → β → Prop} {x : Except EvalError α}
    {y z : Except EvalError β} (h : Tracks R x y) (more : Extends y z) : Tracks R x z := by
  intro ends
  have agree := h ends
  rw [more (agree.not_depthExceeded ends)]
  exact agree

theorem Tracks.extends {α : Type} {R : α → α → Prop} {x y : Except EvalError α} (h : Tracks R x y)
    (same : ∀ a b, R a b → a = b) : Extends x y :=
  fun ends => (h ends).eq same

theorem Extends.tracks {x y : Outcome} (h : Extends x y) : Tracks (Option.Rel Eq) x y := by
  intro ends
  rw [h ends]
  exact tracks_self (fun _ _ => rfl) ends

theorem eq_of_option_rel {α : Type} (a b : Option α) (h : Option.Rel Eq a b) : a = b := by
  cases h with
  | none => rfl
  | some same => rw [same]

theorem kept_eq (tag : String) : Kept Eq tag tag where
  stop := by
    rintro t _ rfl
    rfl
  list := by
    intro pos ts us same
    rw [List.forall₂_eq_eq_eq] at same
    rw [same]

variable [Regex] {g : Grammar} {text : Text}

theorem extends_chain {attempt attempt' : Validator → Nat → Outcome}
    (h : ∀ v p, Extends (attempt v p) (attempt' v p)) (items : List Validator) (pos : Nat) :
    Extends (chain attempt items pos) (chain attempt' items pos) := by
  have chains := tracks_chain (kept_eq "") (fun v p => (h v p).tracks) items pos
  rw [List.forall₂_eq_eq_eq] at chains
  exact chains.extends eq_of_option_rel

/-- One more level of depth gives the same trees. -/
theorem tracks_deeper (depth : Nat) (v : Validator) (pos : Nat) (tag : String) :
    Tracks (Option.Rel Eq) (evaluate g text depth v pos tag)
      (evaluate g text (depth + 1) v pos tag) := by
  induction depth generalizing v pos tag with
  | zero => exact tracks_zero
  | succ depth ih =>
    cases v with
    | terminal t => exact tracks_self fun _ _ => rfl
    | ref name =>
      refine tracks_ref (f := id) (by simp) ?_ fun v => ih v pos name
      rintro t _ rfl
      rfl
    | quantified inner arity =>
      exact tracks_quantified (kept_eq tag) (fun p => ih inner p tag) arity pos
    | sequence items => exact tracks_sequence (kept_eq tag) (fun v p => ih v p tag) items pos
    | foreign x => exact tracks_error _

theorem extends_evaluate (depth : Nat) (v : Validator) (pos : Nat) (tag : String) :
    Extends (evaluate g text depth v pos tag) (evaluate g text (depth + 1) v pos tag) :=
  (tracks_deeper depth v pos tag).extends eq_of_option_rel

/-- An evaluation that ends within some depth ends in the same way within any greater one. -/
theorem evaluate_mono {depth depth' : Nat} {v : Validator} {pos : Nat} {tag : String} {o : Outcome}
    (h : evaluate g text depth v pos tag = o) (ho : o ≠ .error .depthExceeded)
    (hd : depth ≤ depth') : evaluate g text depth' v pos tag = o := by
  induction hd with
  | refl => exact h
  | step _ ih => rw [extends_evaluate _ v pos tag (by rw [ih]; exact ho)]; exact ih

end Matching

end OrderedGrammar

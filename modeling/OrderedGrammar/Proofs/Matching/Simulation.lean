import OrderedGrammar.Proofs.Matching.Loops

/-!
Evaluations that follow one another: of the same validator within another depth, of a changed
validator under a changed grammar, or with another tag. They agree unless the first ends in an error
that is excused (`AgreeUnless`), such as running out of depth (`Tracks`). If the attempts of one
follow the attempts of the other, so do choices, chains and repetitions of them, and so do
evaluations one level deeper. The trees are in a relation that list nodes keep (`Kept`), which says
how much the two evaluations have in common. The two may even read different texts, if it is known
which places of one text correspond to which places of the other (`KeptAlong`).
-/

namespace OrderedGrammar.Matching

/-! ### One step -/

section Steps

variable [Regex] {g : Grammar} {text : Text} {depth pos : Nat} {tag : String}

theorem evaluate_ref_of_none {name : String} (h : g.rule? name = none) :
    evaluate g text (depth + 1) (.ref name) pos tag = .error (.undefinedRule name) := by
  rw [evaluate, h]

theorem evaluate_ref {name : String} {alternatives : List Validator}
    (h : g.rule? name = some alternatives) :
    evaluate g text (depth + 1) (.ref name) pos tag =
      (firstMatch (fun v => evaluate g text depth v pos name) alternatives).map
        (·.map (Tree.asRule name)) := by
  rw [evaluate, h]
  rfl

theorem evaluate_opt {inner : Validator} :
    evaluate g text (depth + 1) (.quantified inner .zeroOrOne) pos tag =
      (evaluate g text depth inner pos tag).map fun o => some (o.getD (.empty pos tag)) :=
  rfl

theorem evaluate_sequence {items : List Validator} :
    evaluate g text (depth + 1) (.sequence items) pos tag =
      (chain (fun v p => evaluate g text depth v p tag) items pos).map
        (·.map (listNode tag pos)) :=
  rfl

/-- A repetition is a matter of its rounds, unless one match is required and the first round halts
it. -/
theorem evaluate_rounds {inner : Validator} {arity : Arity}
    (ha : arity = .zeroOrMore ∨
      arity = .oneOrMore ∧ ¬ Halts (fun p => evaluate g text depth inner p tag) pos) :
    evaluate g text (depth + 1) (.quantified inner arity) pos tag =
      (iterate (fun p => evaluate g text depth inner p tag) (text.size + 2) pos).map
        fun ts => some (listNode tag pos ts) := by
  rcases ha with rfl | ⟨rfl, hh⟩
  · exact repetition_optional
  · exact (repetition_required hh).trans repetition_optional

end Steps

/-! ### Results that follow one another -/

/-- The same error, or values in a relation. -/
inductive Agree {α β : Type} (R : α → β → Prop) : Except EvalError α → Except EvalError β → Prop
  | error (e : EvalError) : Agree R (.error e) (.error e)
  | ok {a : α} {b : β} (h : R a b) : Agree R (.ok a) (.ok b)

/-- Unless the first ends in an excused error, the second agrees with it. -/
def AgreeUnless {α β : Type} (excused : EvalError → Prop) (R : α → β → Prop)
    (x : Except EvalError α) (y : Except EvalError β) : Prop :=
  (∀ e, excused e → x ≠ .error e) → Agree R x y

/-- Unless the first ran out of depth, the second agrees with it. -/
def Tracks {α β : Type} (R : α → β → Prop) (x : Except EvalError α) (y : Except EvalError β) :
    Prop :=
  x ≠ .error .depthExceeded → Agree R x y

section Results

variable {α β γ δ : Type} {R : α → β → Prop} {S : γ → δ → Prop} {x : Except EvalError α}
  {y : Except EvalError β} {excused : EvalError → Prop}

theorem Agree.imp {R' : α → β → Prop} (h : Agree R x y) (hR : ∀ a b, R a b → R' a b) :
    Agree R' x y := by
  cases h with
  | error e => exact .error e
  | ok hab => exact .ok (hR _ _ hab)

theorem Agree.eq {R : α → α → Prop} {x y : Except EvalError α} (h : Agree R x y)
    (same : ∀ a b, R a b → a = b) : y = x := by
  cases h with
  | error e => rfl
  | ok hab => rw [same _ _ hab]

theorem Agree.not_depthExceeded (h : Agree R x y) (ends : x ≠ .error .depthExceeded) :
    y ≠ .error .depthExceeded := by
  rintro rfl
  cases h with
  | error => exact ends rfl

theorem agreeUnless_ok {a : α} {b : β} (h : R a b) : AgreeUnless excused R (.ok a) (.ok b) :=
  fun _ => .ok h

theorem agreeUnless_error (e : EvalError) : AgreeUnless excused R (.error e) (.error e) :=
  fun _ => .error e

theorem agreeUnless_excused {e : EvalError} (h : excused e) : AgreeUnless excused R (.error e) y :=
  fun ends => absurd rfl (ends e h)

theorem AgreeUnless.bind {f : α → Except EvalError γ} {f' : β → Except EvalError δ}
    (h : AgreeUnless excused R x y) (hf : ∀ a b, R a b → AgreeUnless excused S (f a) (f' b)) :
    AgreeUnless excused S (x >>= f) (y >>= f') := by
  intro ends
  have first : ∀ e, excused e → x ≠ .error e := by
    rintro e he rfl
    exact ends e he rfl
  cases h first with
  | error e => exact .error e
  | ok hab => exact hf _ _ hab ends

theorem AgreeUnless.map {f : α → γ} {f' : β → δ} (h : AgreeUnless excused R x y)
    (hf : ∀ a b, R a b → S (f a) (f' b)) : AgreeUnless excused S (x.map f) (y.map f') := by
  have mapped : AgreeUnless excused S (x >>= fun a => .ok (f a)) (y >>= fun b => .ok (f' b)) :=
    h.bind fun a b hab => agreeUnless_ok (hf a b hab)
  cases x <;> cases y <;> exact mapped

/-- Running out of depth is the error that is excused. -/
theorem tracks_iff : Tracks R x y ↔ AgreeUnless (· = .depthExceeded) R x y := by
  simp only [Tracks, AgreeUnless, forall_eq]

theorem tracks_ok {a : α} {b : β} (h : R a b) : Tracks R (.ok a) (.ok b) := fun _ => .ok h

theorem tracks_error (e : EvalError) : Tracks R (.error e) (.error e) := fun _ => .error e

theorem Tracks.bind {f : α → Except EvalError γ} {f' : β → Except EvalError δ} (h : Tracks R x y)
    (hf : ∀ a b, R a b → Tracks S (f a) (f' b)) : Tracks S (x >>= f) (y >>= f') :=
  tracks_iff.mpr ((tracks_iff.mp h).bind fun a b hab => tracks_iff.mp (hf a b hab))

theorem Tracks.map {f : α → γ} {f' : β → δ} (h : Tracks R x y)
    (hf : ∀ a b, R a b → S (f a) (f' b)) : Tracks S (x.map f) (y.map f') :=
  tracks_iff.mpr ((tracks_iff.mp h).map hf)

theorem Tracks.mapLeft {f : α → γ} {T : γ → β → Prop} (h : Tracks R x y)
    (hf : ∀ a b, R a b → T (f a) b) : Tracks T (x.map f) y := by
  have mapped : Tracks T (x.map f) (y.map id) := h.map hf
  rwa [Except.map_id] at mapped

/-- Two results that follow each other agree, also where both run out of depth. -/
theorem Tracks.agree {T : β → α → Prop} (h : Tracks R x y) (h' : Tracks T y x) :
    Agree (fun a b => R a b ∧ T b a) x y := by
  by_cases deep : x = .error .depthExceeded
  · subst deep
    have both : y = .error .depthExceeded := by
      by_contra ends
      cases h' ends with
      | error => exact ends rfl
    rw [both]
    exact .error _
  · cases h deep with
    | error e => exact .error e
    | ok hab =>
      cases h' (by simp) with
      | ok hba => exact .ok ⟨hab, hba⟩

/-- No depth at all is followed by anything. -/
theorem tracks_zero [Regex] {S : Option Tree → β → Prop} {g : Grammar} {text : Text} {v : Validator}
    {pos : Nat} {tag : String} : Tracks S (evaluate g text 0 v pos tag) y := by
  intro ends
  exact absurd (by rw [evaluate]) ends

end Results

/-! ### Loops of attempts that follow one another -/

/-- A relation between trees that stop in the same place, kept by list nodes with the two tags. -/
structure Kept (R : Tree → Tree → Prop) (tag tag' : String) : Prop where
  stop : ∀ t u, R t u → t.stop = u.stop
  list : ∀ pos ts us, List.Forall₂ R ts us → R (listNode tag pos ts) (listNode tag' pos us)

/-- A relation between trees that stop in places that correspond, kept by list nodes with the two
tags that begin in such places. Of two places the same one comes first in both texts. -/
structure KeptAlong (At : Nat → Nat → Prop) (R : Tree → Tree → Prop) (tag tag' : String) :
    Prop where
  order : ∀ {p p' q q'}, At p p' → At q q' → (p ≤ q ↔ p' ≤ q')
  stop : ∀ {t u}, R t u → At t.stop u.stop
  list : ∀ {p p'}, At p p' → ∀ ts us, List.Forall₂ R ts us →
    R (listNode tag p ts) (listNode tag' p' us)

/-- Every place corresponds to itself. -/
theorem Kept.along {R : Tree → Tree → Prop} {tag tag' : String} (kept : Kept R tag tag') :
    KeptAlong Eq R tag tag' where
  order := by
    rintro p _ q _ rfl rfl
    exact Iff.rfl
  stop := kept.stop _ _
  list := by
    rintro p _ rfl ts us related
    exact kept.list p ts us related

section Loops

variable {excused : EvalError → Prop} {At : Nat → Nat → Prop} {R : Tree → Tree → Prop}
  {tag tag' : String}

/-- An outcome is followed by itself if its tree is in the relation with itself. -/
theorem agreeUnless_self {o : Outcome} (h : ∀ t, o = .ok (some t) → R t t) :
    AgreeUnless excused (Option.Rel R) o o := by
  rcases o with e | _ | t
  · exact agreeUnless_error e
  · exact agreeUnless_ok .none
  · exact agreeUnless_ok (.some (h t rfl))

theorem agreeUnless_firstMatch [Regex] {attempt attempt' : Validator → Outcome}
    {f : Validator → Validator} {vs : List Validator}
    (h : ∀ v ∈ vs, AgreeUnless excused (Option.Rel R) (attempt v) (attempt' (f v))) :
    AgreeUnless excused (Option.Rel R) (firstMatch attempt vs)
      (firstMatch attempt' (vs.map f)) := by
  induction vs with
  | nil => exact agreeUnless_ok .none
  | cons v rest ih =>
    obtain ⟨first, others⟩ := List.forall_mem_cons.mp h
    refine first.bind fun found found' hfound => ?_
    cases hfound with
    | none => exact ih others
    | some related => exact agreeUnless_ok (.some related)

theorem agreeUnless_chain_along [Regex] (kept : KeptAlong At R tag tag')
    {attempt attempt' : Validator → Nat → Outcome} {items : List Validator}
    (h : ∀ v ∈ items, ∀ p p', At p p' →
      AgreeUnless excused (Option.Rel R) (attempt v p) (attempt' v p'))
    {pos pos' : Nat} (here : At pos pos') :
    AgreeUnless excused (Option.Rel (List.Forall₂ R)) (chain attempt items pos)
      (chain attempt' items pos') := by
  induction items generalizing pos pos' with
  | nil => exact agreeUnless_ok (.some .nil)
  | cons v rest ih =>
    obtain ⟨first, others⟩ := List.forall_mem_cons.mp h
    refine (first pos pos' here).bind fun found found' hfound => ?_
    cases hfound with
    | none => exact agreeUnless_ok .none
    | @some t u related =>
      refine (ih others (kept.stop related)).bind fun more more' hmore => ?_
      cases hmore with
      | none => exact agreeUnless_ok .none
      | some trees => exact agreeUnless_ok (.some (.cons related trees))

theorem agreeUnless_chain [Regex] (kept : Kept R tag tag')
    {attempt attempt' : Validator → Nat → Outcome} {items : List Validator}
    (h : ∀ v ∈ items, ∀ p, AgreeUnless excused (Option.Rel R) (attempt v p) (attempt' v p))
    (pos : Nat) : AgreeUnless excused (Option.Rel (List.Forall₂ R)) (chain attempt items pos)
      (chain attempt' items pos) := by
  refine agreeUnless_chain_along kept.along ?_ rfl
  rintro v hv p _ rfl
  exact h v hv p

section Rounds

variable {round round' : Nat → Outcome}
  (h : ∀ p p', At p p' → AgreeUnless excused (Option.Rel R) (round p) (round' p'))

include h

theorem agreeUnless_iterate_along (kept : KeptAlong At R tag tag') (fuel : Nat) {pos pos' : Nat}
    (here : At pos pos') :
    AgreeUnless excused (List.Forall₂ R) (iterate round fuel pos) (iterate round' fuel pos') := by
  induction fuel generalizing pos pos' with
  | zero => exact agreeUnless_ok .nil
  | succ fuel ih =>
    refine (h pos pos' here).bind fun found found' hfound => ?_
    cases hfound with
    | none => exact agreeUnless_ok .nil
    | @some t u related =>
      have there := kept.stop related
      simp only [← kept.order there here]
      split
      · exact agreeUnless_ok .nil
      · exact (ih there).bind fun ts us more => agreeUnless_ok (.cons related more)

/-- In the second text as many rounds as there are in the first must be enough. -/
theorem agreeUnless_repetition_along (kept : KeptAlong At R tag tag') {text text' : Text}
    (enough : ∀ q q', At q q' →
      iterate round' (text'.size + 1) q' = iterate round' (text.size + 1) q')
    (required : Bool) {pos pos' : Nat} (here : At pos pos') :
    AgreeUnless excused (Option.Rel R) (repetition round required text pos tag)
      (repetition round' required text' pos' tag') := by
  have nothing : R (.empty pos tag) (.empty pos' tag') := kept.list here [] [] .nil
  refine (h pos pos' here).bind fun found found' hfound => ?_
  cases hfound with
  | none =>
    cases required with
    | true => exact agreeUnless_ok .none
    | false => exact agreeUnless_ok (.some nothing)
  | @some t u related =>
    have there := kept.stop related
    simp only [← kept.order there here, enough _ _ there]
    split
    · cases required with
      | true => exact agreeUnless_ok (.some (kept.list here _ _ (.cons related .nil)))
      | false => exact agreeUnless_ok (.some nothing)
    · refine (agreeUnless_iterate_along h kept _ there).bind fun ts us more => ?_
      exact agreeUnless_ok (.some (kept.list here _ _ (.cons related more)))

end Rounds

theorem tracks_self {o : Outcome} (h : ∀ t, o = .ok (some t) → R t t) :
    Tracks (Option.Rel R) o o :=
  tracks_iff.mpr (agreeUnless_self h)

theorem tracks_chain [Regex] (kept : Kept R tag tag') {attempt attempt' : Validator → Nat → Outcome}
    (h : ∀ v p, Tracks (Option.Rel R) (attempt v p) (attempt' v p)) (items : List Validator)
    (pos : Nat) :
    Tracks (Option.Rel (List.Forall₂ R)) (chain attempt items pos) (chain attempt' items pos) :=
  tracks_iff.mpr (agreeUnless_chain kept (fun v _ p => tracks_iff.mp (h v p)) pos)

end Loops

/-! ### Evaluations one level deeper -/

section Evaluations

variable [Regex] {excused : EvalError → Prop} {At : Nat → Nat → Prop} {R : Tree → Tree → Prop}
  {g g' : Grammar} {text text' : Text} {depth depth' : Nat} {tag tag' : String}

/-- A rule is followed by the rule of the other grammar that has the changed alternatives. -/
theorem agreeUnless_ref {name : String} {alternatives : List Validator} {f : Validator → Validator}
    (rule : g.rule? name = some alternatives) (rule' : g'.rule? name = some (alternatives.map f))
    (named : ∀ t u, R t u → R (t.asRule name) (u.asRule name)) {pos pos' : Nat}
    (h : ∀ v ∈ alternatives, AgreeUnless excused (Option.Rel R) (evaluate g text depth v pos name)
      (evaluate g' text' depth' (f v) pos' name)) :
    AgreeUnless excused (Option.Rel R) (evaluate g text (depth + 1) (.ref name) pos tag)
      (evaluate g' text' (depth' + 1) (.ref name) pos' tag') := by
  rw [evaluate_ref rule, evaluate_ref rule']
  refine (agreeUnless_firstMatch h).map fun found found' hfound => ?_
  cases hfound with
  | none => exact .none
  | @some t u related => exact .some (named t u related)

theorem agreeUnless_quantified_along (kept : KeptAlong At R tag tag') {inner inner' : Validator}
    (h : ∀ p p', At p p' → AgreeUnless excused (Option.Rel R) (evaluate g text depth inner p tag)
      (evaluate g' text' depth' inner' p' tag'))
    (enough : ∀ q q', At q q' →
      iterate (fun p => evaluate g' text' depth' inner' p tag') (text'.size + 1) q' =
        iterate (fun p => evaluate g' text' depth' inner' p tag') (text.size + 1) q')
    (arity : Arity) {pos pos' : Nat} (here : At pos pos') : AgreeUnless excused (Option.Rel R)
      (evaluate g text (depth + 1) (.quantified inner arity) pos tag)
      (evaluate g' text' (depth' + 1) (.quantified inner' arity) pos' tag') := by
  cases arity with
  | zeroOrOne =>
    rw [evaluate_opt, evaluate_opt]
    refine (h pos pos' here).map fun found found' hfound => ?_
    cases hfound with
    | none => exact .some (kept.list here [] [] .nil)
    | some related => exact .some related
  | zeroOrMore =>
    rw [evaluate, evaluate]
    exact agreeUnless_repetition_along h kept enough false here
  | oneOrMore =>
    rw [evaluate, evaluate]
    exact agreeUnless_repetition_along h kept enough true here

theorem agreeUnless_sequence_along (kept : KeptAlong At R tag tag') {items : List Validator}
    (h : ∀ v ∈ items, ∀ p p', At p p' → AgreeUnless excused (Option.Rel R)
      (evaluate g text depth v p tag) (evaluate g' text' depth' v p' tag'))
    {pos pos' : Nat} (here : At pos pos') : AgreeUnless excused (Option.Rel R)
      (evaluate g text (depth + 1) (.sequence items) pos tag)
      (evaluate g' text' (depth' + 1) (.sequence items) pos' tag') := by
  rw [evaluate_sequence, evaluate_sequence]
  refine (agreeUnless_chain_along kept h here).map fun parts parts' hparts => ?_
  cases hparts with
  | none => exact .none
  | @some ts us related => exact .some (kept.list here ts us related)

theorem agreeUnless_quantified (kept : Kept R tag tag') {inner inner' : Validator}
    (h : ∀ p, AgreeUnless excused (Option.Rel R) (evaluate g text depth inner p tag)
      (evaluate g' text depth' inner' p tag')) (arity : Arity) (pos : Nat) :
    AgreeUnless excused (Option.Rel R)
      (evaluate g text (depth + 1) (.quantified inner arity) pos tag)
      (evaluate g' text (depth' + 1) (.quantified inner' arity) pos tag') := by
  refine agreeUnless_quantified_along kept.along ?_ (fun _ _ _ => rfl) arity rfl
  rintro p _ rfl
  exact h p

theorem agreeUnless_sequence (kept : Kept R tag tag') {items : List Validator}
    (h : ∀ v ∈ items, ∀ p, AgreeUnless excused (Option.Rel R) (evaluate g text depth v p tag)
      (evaluate g' text depth' v p tag')) (pos : Nat) :
    AgreeUnless excused (Option.Rel R) (evaluate g text (depth + 1) (.sequence items) pos tag)
      (evaluate g' text (depth' + 1) (.sequence items) pos tag') := by
  refine agreeUnless_sequence_along kept.along ?_ rfl
  rintro v hv p _ rfl
  exact h v hv p

theorem tracks_ref {name : String} {f : Validator → Validator}
    (declared : g'.rule? name = (g.rule? name).map (·.map f))
    (named : ∀ t u, R t u → R (t.asRule name) (u.asRule name)) {pos : Nat}
    (h : ∀ v, Tracks (Option.Rel R) (evaluate g text depth v pos name)
      (evaluate g' text depth' (f v) pos name)) :
    Tracks (Option.Rel R) (evaluate g text (depth + 1) (.ref name) pos tag)
      (evaluate g' text (depth' + 1) (.ref name) pos tag') := by
  cases rule : g.rule? name with
  | none =>
    rw [rule] at declared
    rw [evaluate_ref_of_none rule, evaluate_ref_of_none declared]
    exact tracks_error _
  | some alternatives =>
    rw [rule] at declared
    exact tracks_iff.mpr (agreeUnless_ref rule declared named fun v _ => tracks_iff.mp (h v))

theorem tracks_quantified (kept : Kept R tag tag') {inner inner' : Validator}
    (h : ∀ p, Tracks (Option.Rel R) (evaluate g text depth inner p tag)
      (evaluate g' text depth' inner' p tag')) (arity : Arity) (pos : Nat) :
    Tracks (Option.Rel R) (evaluate g text (depth + 1) (.quantified inner arity) pos tag)
      (evaluate g' text (depth' + 1) (.quantified inner' arity) pos tag') :=
  tracks_iff.mpr (agreeUnless_quantified kept (fun p => tracks_iff.mp (h p)) arity pos)

theorem tracks_sequence (kept : Kept R tag tag')
    (h : ∀ v p, Tracks (Option.Rel R) (evaluate g text depth v p tag)
      (evaluate g' text depth' v p tag')) (items : List Validator) (pos : Nat) :
    Tracks (Option.Rel R) (evaluate g text (depth + 1) (.sequence items) pos tag)
      (evaluate g' text (depth' + 1) (.sequence items) pos tag') :=
  tracks_iff.mpr (agreeUnless_sequence kept (fun v _ p => tracks_iff.mp (h v p)) pos)

end Evaluations

end OrderedGrammar.Matching

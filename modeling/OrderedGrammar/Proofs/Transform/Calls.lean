import OrderedGrammar.Proofs.Tree.Order
import OrderedGrammar.Proofs.Transform.Runs
import OrderedGrammar.Points.Reader
import OrderedGrammar.Proofs.Pattern.Lawful

/-!
The calls that transforming a tree makes. `Yields` tells what a node comes to, and `Gathers` what
comes together from the nodes nearest below it, between the states that transforms keep before and
after it, without an order of steps. A computation `Makes` its calls for given nodes: all of them in
order if it gives a value, and those up to the call that fails otherwise. Transforming a tree makes
its calls for the nodes in postorder (`calls_in_postorder`).
-/

namespace OrderedGrammar

namespace Transform

variable {σ : Type}

/-! ### What nodes come to -/

/-- The transform of a node: that of its rule, if it is a rule node and its rule has one. -/
def transformOf (fs : Transforms σ) (t : Tree) : Option (Transform σ) :=
  if t.isRule then fs t.rule else none

mutual

/-- The value of a node, between the state before the first call for it or below it and that after
the last. A transform is given the values gathered from below; without one a node passes on its
text, the value of its only child, or the list of what has been gathered. -/
inductive Yields (fs : Transforms σ) (src : Text) : σ → Tree → Value → σ → Prop
  | called {s s₁ s₂ t f vs v} (hf : transformOf fs t = some f)
      (below : Gathers fs src s t.nearest vs s₁) (h : f s₁ ⟨t, vs, t.source src⟩ = (.ok v, s₂)) :
      Yields fs src s t v s₂
  | text {s i w} (hf : transformOf fs (.text i w) = none) :
      Yields fs src s (.text i w) (.text w) s
  | single {s s' i c v} (hf : transformOf fs (.single i c) = none) (h : Yields fs src s c v s') :
      Yields fs src s (.single i c) v s'
  | list {s s' i cs vs} (hf : transformOf fs (.list i cs) = none)
      (below : Gathers fs src s (Tree.list i cs).nearest vs s') :
      Yields fs src s (.list i cs) (.list vs) s'

/-- The values of several nodes in order: `null` is left out, every other value is one element. -/
inductive Gathers (fs : Transforms σ) (src : Text) : σ → List Tree → List Value → σ → Prop
  | nil {s} : Gathers fs src s [] [] s
  | dropped {s s₁ s₂ t ts vs} (h : Yields fs src s t .null s₁) (hs : Gathers fs src s₁ ts vs s₂) :
      Gathers fs src s (t :: ts) vs s₂
  | kept {s s₁ s₂ t v ts vs} (h : Yields fs src s t v s₁) (hv : v ≠ .null)
      (hs : Gathers fs src s₁ ts vs s₂) : Gathers fs src s (t :: ts) (v :: vs) s₂

end

section Unique

variable {fs : Transforms σ} {src : Text} {s s' s₁ s₂ : σ}

mutual

/-- A node comes to one value at most, and leaves one state. -/
theorem Yields.unique {s s₁ s₂ : σ} {t : Tree} {v w : Value} (h : Yields fs src s t v s₁)
    (h' : Yields fs src s t w s₂) : v = w ∧ s₁ = s₂ := by
  match h with
  | .called hf below h =>
    cases h' with
    | called hf' below' h' =>
      cases hf.symm.trans hf'
      obtain ⟨rfl, rfl⟩ := below.unique below'
      cases h.symm.trans h'
      exact ⟨rfl, rfl⟩
    | text hf' => cases hf.symm.trans hf'
    | single hf' => cases hf.symm.trans hf'
    | list hf' => cases hf.symm.trans hf'
  | .text hf =>
    cases h' with
    | called hf' => cases hf.symm.trans hf'
    | text => exact ⟨rfl, rfl⟩
  | .single hf h =>
    cases h' with
    | called hf' => cases hf.symm.trans hf'
    | single _ h' => exact h.unique h'
  | .list hf below =>
    cases h' with
    | called hf' => cases hf.symm.trans hf'
    | list _ below' =>
      obtain ⟨rfl, rfl⟩ := below.unique below'
      exact ⟨rfl, rfl⟩

theorem Gathers.unique {s s₁ s₂ : σ} {ts : List Tree} {vs ws : List Value}
    (h : Gathers fs src s ts vs s₁) (h' : Gathers fs src s ts ws s₂) : vs = ws ∧ s₁ = s₂ := by
  match h with
  | .nil =>
    cases h'
    exact ⟨rfl, rfl⟩
  | .dropped h hs =>
    cases h' with
    | dropped h' hs' =>
      obtain ⟨-, rfl⟩ := h.unique h'
      exact hs.unique hs'
    | kept h' hv => exact absurd (h.unique h').1.symm hv
  | .kept h hv hs =>
    cases h' with
    | dropped h' => exact absurd (h.unique h').1 hv
    | kept h' _ hs' =>
      obtain ⟨rfl, rfl⟩ := h.unique h'
      obtain ⟨rfl, rfl⟩ := hs.unique hs'
      exact ⟨rfl, rfl⟩

end

theorem Yields.iff {t : Tree} {v w : Value} (h : Yields fs src s t v s₁) :
    Yields fs src s t w s₂ ↔ w = v ∧ s₂ = s₁ := by
  refine ⟨fun h' => h'.unique h, ?_⟩
  rintro ⟨rfl, rfl⟩
  exact h

theorem Gathers.iff {ts : List Tree} {vs ws : List Value} (h : Gathers fs src s ts vs s₁) :
    Gathers fs src s ts ws s₂ ↔ ws = vs ∧ s₂ = s₁ := by
  refine ⟨fun h' => h'.unique h, ?_⟩
  rintro ⟨rfl, rfl⟩
  exact h

theorem Gathers.append {s s₁ s₂ : σ} {ts us : List Tree} {vs ws : List Value}
    (h : Gathers fs src s ts vs s₁) (h' : Gathers fs src s₁ us ws s₂) :
    Gathers fs src s (ts ++ us) (vs ++ ws) s₂ := by
  match h with
  | .nil => exact h'
  | .dropped h hs => exact .dropped h (hs.append h')
  | .kept h hv hs => exact .kept h hv (hs.append h')

theorem gathers_singleton {t : Tree} {v : Value} (h : Yields fs src s t v s') :
    Gathers fs src s [t] v.contribution s' := by
  cases v with
  | null => exact .dropped h .nil
  | _ => exact .kept h (by simp) .nil

/-- An only child that is `null` is missing, and so is its value. -/
theorem Gathers.headD_eq {t : Tree} {vs : List Value} (h : Gathers fs src s [t] vs s') :
    Yields fs src s t (vs.headD .null) s' := by
  cases h with
  | dropped h hs =>
    cases hs
    exact h
  | kept h hv hs =>
    cases hs
    exact h

end Unique

/-! ### Calls -/

section Calls

variable (fs : Transforms σ)

/-- In the first state, the transform of the context's rule gives this for it, and leaves the second
state. -/
def Answers (s : σ) (c : Context) (r : Except TransformError Value) (s' : σ) : Prop :=
  ∃ f, transformOf fs c.node = some f ∧ f s c = (r, s')

/-- The calls, made one after the other, all give values. -/
inductive Answered : σ → List Context → σ → Prop
  | nil {s} : Answered s [] s
  | cons {s s₁ s₂ c cs v} (h : Answers fs s c (.ok v) s₁) (hs : Answered s₁ cs s₂) :
      Answered s (c :: cs) s₂

/-- The nodes for which calls are made. -/
def asked (nodes : List Tree) : List Tree :=
  nodes.filter fun t => (transformOf fs t).isSome

/-- From a state on, these calls were made before, the last of them for the nodes below that of the
context. The context holds what its node covers, and what is gathered from below since the state
that the calls before these have left. -/
structure Informed (src : Text) (s : σ) (before : List Context) (c : Context) : Prop where
  source : c.text = c.node.source src
  gathered : ∃ earlier below s₁ s₂, before = earlier ++ below ∧
    below.map (·.node) = asked fs c.node.postorder.dropLast ∧
    Answered fs s earlier s₁ ∧ Answered fs s₁ below s₂ ∧
    ∀ vs s₃, Gathers fs src s₁ c.node.nearest vs s₃ ↔ vs = c.values ∧ s₃ = s₂

/-- All calls were made, for these nodes, and gave a value. -/
def Completed (s : σ) (calls : List Context) (nodes : List Tree) (s' : σ) : Prop :=
  calls.map (·.node) = nodes ∧ Answered fs s calls s'

/-- The first calls were made, for the first of these nodes; the last of them gave the error and the
others gave values. -/
def Failed (s : σ) (calls : List Context) (nodes : List Tree) (e : TransformError) (s' : σ) :
    Prop :=
  ∃ before last s₁, calls = before ++ [last] ∧ calls.map (·.node) <+: nodes ∧
    Answered fs s before s₁ ∧ Answers fs s₁ last (.error e) s'

end Calls

variable {fs : Transforms σ} {src : Text}

theorem Answered.append {s s₁ s₂ : σ} {calls calls' : List Context} (h : Answered fs s calls s₁)
    (h' : Answered fs s₁ calls' s₂) : Answered fs s (calls ++ calls') s₂ := by
  induction h with
  | nil => exact h'
  | cons first _ ih => exact .cons first (ih h')

/-- The computation, begun after earlier calls, records calls that are informed, whatever the record
is. If it gives a value, these are the calls for the nodes, and value and state have the property;
if it gives an error, they are the first of these calls, up to the one that failed. -/
def Makes {α : Type} (fs : Transforms σ) (src : Text) (s₀ : σ) (earlier : List Context) (s : σ)
    (m : Traced σ α) (nodes : List Tree) (P : α → σ → Prop) : Prop :=
  ∀ record : Array Context, ∃ calls,
    (m.run.run (s, record)).2.2.toList = record.toList ++ calls ∧
    (∀ before c after, calls = before ++ c :: after → Informed fs src s₀ (earlier ++ before) c) ∧
    (∀ a, (m.run.run (s, record)).1 = .ok a →
      Completed fs s calls nodes (m.run.run (s, record)).2.1 ∧
        P a (m.run.run (s, record)).2.1) ∧
    ∀ e, (m.run.run (s, record)).1 = .error e →
      Failed fs s calls nodes e (m.run.run (s, record)).2.1

section Makes

variable {α β : Type} {s₀ s : σ} {earlier : List Context} {nodes nodes' : List Tree}
  {P : α → σ → Prop} {Q : β → σ → Prop}

theorem makes_pure {a : α} (h : P a s) : Makes fs src s₀ earlier s (pure a) [] P := by
  intro record
  refine ⟨[], (List.append_nil _).symm, by simp, ?_, ?_⟩
  · rintro _ ⟨⟩
    exact ⟨⟨rfl, .nil⟩, h⟩
  · rintro _ ⟨⟩

/-- Calls that are made one after the other. -/
theorem Makes.bind {m : Traced σ α} {f : α → Traced σ β} (h : Makes fs src s₀ earlier s m nodes P)
    (hf : ∀ a s₁ calls, Completed fs s calls nodes s₁ → P a s₁ →
      Makes fs src s₀ (earlier ++ calls) s₁ (f a) nodes' Q) :
    Makes fs src s₀ earlier s (m >>= f) (nodes ++ nodes') Q := by
  intro record
  obtain ⟨calls, recorded, informed, completed, failed⟩ := h record
  rw [ExceptT.run_bind, StateT.run_bind]
  rcases hm : m.run.run (s, record) with ⟨e | a, s₁, record₁⟩
  · rw [hm] at recorded failed
    refine ⟨calls, recorded, informed, by rintro _ ⟨⟩, ?_⟩
    rintro _ ⟨⟩
    obtain ⟨before, last, s₂, rfl, prefixed, answered, answer⟩ := failed e rfl
    exact ⟨before, last, s₂, rfl, prefixed.trans (List.prefix_append _ _), answered, answer⟩
  · rw [hm] at recorded completed
    obtain ⟨⟨forNodes, answered⟩, ha⟩ := completed a rfl
    obtain ⟨calls', recorded', informed', completed', failed'⟩ :=
      hf a s₁ calls ⟨forNodes, answered⟩ ha record₁
    refine ⟨calls ++ calls', ?_, ?_, ?_, ?_⟩
    · rw [← List.append_assoc, ← recorded]
      exact recorded'
    · intro before c after split
      rcases List.append_eq_append_iff.mp split with ⟨more, rfl, rest⟩ | ⟨more, rfl, rest⟩
      · rw [← List.append_assoc]
        exact informed' more c after rest
      · cases more with
        | nil => simpa using informed' [] c after rest.symm
        | cons d more =>
          obtain ⟨rfl, -⟩ := List.cons.inj rest
          exact informed before c more rfl
    · intro b hb
      obtain ⟨⟨forNodes', answered'⟩, hq⟩ := completed' b hb
      exact ⟨⟨by rw [List.map_append, forNodes, forNodes'], answered.append answered'⟩, hq⟩
    · intro e he
      obtain ⟨before, last, s₂, rfl, prefixed, answered', answer⟩ := failed' e he
      refine ⟨calls ++ before, last, s₂, (List.append_assoc _ _ _).symm, ?_,
        answered.append answered', answer⟩
      rw [List.map_append, forNodes]
      exact (List.prefix_append_right_inj nodes).mpr prefixed

/-- A call is recorded and made. -/
theorem makes_call {f : Transform σ} {c : Context} (hf : transformOf fs c.node = some f)
    (informed : Informed fs src s₀ earlier c) :
    Makes fs src s₀ earlier s (call f c) [c.node] fun v s' => f s c = (.ok v, s') := by
  intro record
  rw [run_call]
  refine ⟨[c], by simp, ?_, ?_, ?_⟩
  · intro before d after split
    obtain ⟨rfl, h⟩ | ⟨_, rfl, h⟩ := List.cons_eq_append_iff.mp split
    · obtain ⟨rfl, -⟩ := List.cons.inj h
      rwa [List.append_nil]
    · simp at h
  · intro v hv
    have result : f s c = (.ok v, (f s c).2) := Prod.ext hv rfl
    exact ⟨⟨rfl, .cons ⟨f, hf, result⟩ .nil⟩, result⟩
  · intro e he
    exact ⟨[], c, s, rfl, List.prefix_refl _, .nil, f, hf, Prod.ext he rfl⟩

end Makes

/-! ### Calls below a node -/

theorem asked_append (nodes nodes' : List Tree) :
    asked fs (nodes ++ nodes') = asked fs nodes ++ asked fs nodes' :=
  List.filter_append ..

/-- The call for a node comes after the calls for what is below it. -/
theorem asked_postorder (t : Tree) :
    asked fs t.postorder.dropLast ++ asked fs [t] = asked fs t.postorder := by
  rw [← asked_append, Tree.dropLast_postorder_append]

section Below

variable {s₀ s s₁ : σ} {earlier : List Context}

/-- What is gathered below a node without a transform is passed on as its value. -/
theorem yields_passOn {t : Tree} {vs : List Value} (single : t.SingleRule)
    (hf : transformOf fs t = none) (below : Gathers fs src s t.nearest vs s₁) :
    Yields fs src s t (passOn t vs) s₁ := by
  cases t with
  | text i w =>
    obtain ⟨-, rfl⟩ := below.unique (.kept (.text rfl) (by simp) .nil)
    exact .text hf
  | single i c =>
    rw [Tree.nearest_single single] at below
    exact .single hf below.headD_eq
  | list i cs => exact .list hf below

theorem valueOf_of_called {t : Tree} {f : Transform σ} (hf : transformOf fs t = some f)
    (vs : List Value) : valueOf fs src t vs = call f ⟨t, vs, t.source src⟩ := by
  rw [transformOf] at hf
  rw [valueOf, hf]

theorem valueOf_of_passed {t : Tree} (hf : transformOf fs t = none) (vs : List Value) :
    valueOf fs src t vs = pure (passOn t vs) := by
  rw [transformOf] at hf
  rw [valueOf, hf]

/-- Once the values below a node are gathered, at most the call for the node itself is left. -/
theorem makes_valueOf {t : Tree} {vs : List Value} (single : t.SingleRule)
    (below : Gathers fs src s t.nearest vs s₁)
    (informed : Informed fs src s₀ earlier ⟨t, vs, t.source src⟩) :
    Makes fs src s₀ earlier s₁ (valueOf fs src t vs) (asked fs [t]) (Yields fs src s t) := by
  cases hf : transformOf fs t with
  | none =>
    rw [valueOf_of_passed hf, asked, List.filter_cons_of_neg (by simp [hf])]
    exact makes_pure (yields_passOn single hf below)
  | some f =>
    rw [valueOf_of_called hf, asked, List.filter_cons_of_pos (by simp [hf])]
    intro record
    obtain ⟨calls, recorded, told, completed, failed⟩ := makes_call hf informed record
    refine ⟨calls, recorded, told, ?_, failed⟩
    intro v hv
    exact ⟨(completed v hv).1, .called hf below (completed v hv).2⟩

/-- A rule node contributes its value, and a structural node all that is gathered below it. -/
theorem makes_contribution {t : Tree} {vs : List Value} (single : t.SingleRule)
    (below : Gathers fs src s t.nearest vs s₁)
    (informed : Informed fs src s₀ earlier ⟨t, vs, t.source src⟩) :
    Makes fs src s₀ earlier s₁ (contribution fs src t vs) (asked fs [t]) fun ws s' =>
      Gathers fs src s (if t.isRule then [t] else t.nearest) ws s' := by
  rw [contribution]
  cases rule : t.isRule with
  | true =>
    have value : Makes fs src s₀ earlier s₁
        (valueOf fs src t vs >>= fun v => pure v.contribution) (asked fs [t] ++ [])
        (Gathers fs src s [t]) :=
      (makes_valueOf single below informed).bind fun v _ _ _ hv =>
        makes_pure (gathers_singleton hv)
    rwa [List.append_nil] at value
  | false =>
    have none : asked fs [t] = [] := by simp [asked, transformOf, rule]
    rw [none]
    exact makes_pure below

/-- After the calls below its node a context is informed of what they have come to. -/
theorem informed_of_gathers {t : Tree} {vs : List Value} {below : List Context}
    (answered : Answered fs s₀ earlier s)
    (completed : Completed fs s below (asked fs t.postorder.dropLast) s₁)
    (gathers : Gathers fs src s t.nearest vs s₁) :
    Informed fs src s₀ (earlier ++ below) ⟨t, vs, t.source src⟩ :=
  ⟨rfl, earlier, below, s, s₁, rfl, completed.1, answered, completed.2, fun _ _ => gathers.iff⟩

mutual

/-- Gathering what is below a node makes the calls for the nodes below it. -/
theorem makes_collect {earlier : List Context} {s : σ} : ∀ t : Tree,
    (∀ n ∈ t.nodes, n.SingleRule) → Answered fs s₀ earlier s →
      Makes fs src s₀ earlier s (collect fs src t) (asked fs t.postorder.dropLast)
        (Gathers fs src s t.nearest)
  | .text i w, _, _ => by
    rw [collect, Tree.postorder, Tree.nearest]
    exact makes_pure (.kept (.text rfl) (by simp) .nil)
  | .single i c, h, answered => by
    rw [Tree.nodes_single, List.forall_mem_cons] at h
    obtain ⟨single, below⟩ := h
    have child := (makes_collect c below answered).bind fun vs s₁ calls done gathers =>
      makes_contribution (below c c.mem_nodes_self) gathers
        (informed_of_gathers answered done gathers)
    rw [asked_postorder, if_pos (show c.isRule from single)] at child
    rw [collect, Tree.postorder, List.dropLast_concat, Tree.nearest_single single]
    exact child
  | .list i cs, h, answered => by
    rw [Tree.nodes_list, List.forall_mem_cons] at h
    rw [collect, Tree.postorder, List.dropLast_concat, Tree.nearest]
    exact makes_collectAll cs h.2 answered

theorem makes_collectAll {earlier : List Context} {s : σ} : ∀ ts : List Tree,
    (∀ n ∈ ts.flatMap Tree.nodes, n.SingleRule) → Answered fs s₀ earlier s →
      Makes fs src s₀ earlier s (collectAll fs src ts) (asked fs (Tree.postorderAll ts))
        (Gathers fs src s (Tree.nearestAll ts))
  | [], _, _ => by
    rw [collectAll, Tree.postorderAll, Tree.nearestAll]
    exact makes_pure .nil
  | t :: rest, h, answered => by
    rw [List.flatMap_cons, List.forall_mem_append] at h
    obtain ⟨first, others⟩ := h
    have calls : asked fs (Tree.postorderAll (t :: rest)) = asked fs t.postorder.dropLast ++
        (asked fs [t] ++ (asked fs (Tree.postorderAll rest) ++ [])) := by
      rw [Tree.postorderAll, asked_append, ← asked_postorder, List.append_nil, List.append_assoc]
    rw [collectAll, calls, Tree.nearestAll]
    refine (makes_collect t first answered).bind fun us s₁ below done gathers => ?_
    refine (makes_contribution (first t t.mem_nodes_self) gathers
      (informed_of_gathers answered done gathers)).bind fun vs s₂ own called hvs => ?_
    refine (makes_collectAll rest others
      ((answered.append done.2).append called.2)).bind fun ws s₃ _ _ hws => ?_
    exact makes_pure (hvs.append hws)

end

/-- Transforming a tree makes the calls for its nodes in postorder. -/
theorem makes_apply {t : Tree} (h : ∀ n ∈ t.nodes, n.SingleRule) (s : σ) :
    Makes fs src s [] s (do valueOf fs src t (← collect fs src t)) (asked fs t.postorder)
      (Yields fs src s t) := by
  rw [← asked_postorder]
  exact (makes_collect t h .nil).bind fun vs s₁ calls done gathers =>
    makes_valueOf (h t t.mem_nodes_self) gathers (informed_of_gathers .nil done gathers)

/-- A run that succeeds gathers what the nodes below come to. -/
theorem Runs.gathers {t : Tree} {vs : List Value} {p p' : σ × Array Context}
    (single : ∀ n ∈ t.nodes, n.SingleRule) (h : Runs (collect fs src t) p vs p') :
    Gathers fs src p.1 t.nearest vs p'.1 := by
  have makes : Makes fs src p.1 [] p.1 (collect fs src t) _ (Gathers fs src p.1 t.nearest) :=
    makes_collect t single .nil
  obtain ⟨calls, -, -, completed, -⟩ := makes p.2
  rw [Prod.mk.eta, h] at completed
  exact (completed vs rfl).2

/-- What the nodes below come to is gathered, if no transform fails. -/
theorem Gathers.runs {t : Tree} {vs : List Value} (single : ∀ n ∈ t.nodes, n.SingleRule)
    (fine : ∀ n ∈ t.nodes, n.isRule → Fine fs src n) (h : Gathers fs src s t.nearest vs s₁)
    (record : Array Context) : ∃ p, Runs (collect fs src t) (s, record) vs p := by
  obtain ⟨ws, p, run⟩ := collect_runs t (s, record) fine
  obtain ⟨rfl, -⟩ := (run.gathers single).unique h
  exact ⟨p, run⟩

/-- Only rule nodes have transforms. -/
theorem isRule_of_transformOf {t : Tree} (h : (transformOf fs t).isSome) : t.isRule := by
  by_contra structural
  rw [transformOf, if_neg structural] at h
  cases h

end Below

/-- If a value comes out, all calls were made for rule nodes of the tree, each with what is gathered
below its node. -/
theorem informed_calls {fs : TransformMap} {t : Tree} {v : Value}
    (single : ∀ n ∈ t.nodes, n.SingleRule) (h : (apply fs src t).1 = .ok v) :
    ∀ c ∈ (apply fs src t).2, c.node ∈ t.nodes ∧ c.node.isRule ∧ c.text = c.node.source src ∧
      Gathers fs src () c.node.nearest c.values () := by
  have makes : Makes fs src () [] () (do valueOf fs src t (← collect fs src t)) _ _ :=
    makes_apply single ()
  obtain ⟨calls, recorded, informed, completed, -⟩ := makes #[]
  obtain ⟨⟨forNodes, -⟩, -⟩ := completed v h
  intro c hc
  have made : c ∈ calls := by
    rw [← List.nil_append calls]
    exact recorded ▸ Array.mem_def.mp hc
  have node : c.node ∈ asked fs t.postorder := forNodes ▸ List.mem_map_of_mem made
  obtain ⟨visited, asked⟩ := List.mem_filter.mp node
  refine ⟨t.postorder_perm_nodes.mem_iff.mp visited, isRule_of_transformOf asked, ?_⟩
  obtain ⟨before, after, split⟩ := List.append_of_mem made
  obtain ⟨source, _, _, _, _, -, -, -, -, gathered⟩ := informed before c after split
  exact ⟨source, (gathered _ _).mpr ⟨rfl, rfl⟩⟩

/-- The transform stage visits the nodes of a match in postorder, each of them once. The calls that
it makes are those for the rule nodes whose rules have transforms, in that order: all of them, if a
value comes out, and it is what the root yields; otherwise the first of them up to the one that gave
the error that comes out. Each call is told what its node covers, and what is gathered below it from
the calls made there just before. All this holds whatever state the transforms keep between their
calls, so that they may fail at some call whatever they are told. -/
theorem calls_in_postorder [Regex] [LawfulRegex] {g : Grammar} {text : Text} {depth : Nat}
    {v : Validator} {pos : Nat} {tag : String} {t : Tree}
    (h : Matching.evaluate g text depth v pos tag = .ok (some t)) (fs : Transforms σ) {s s' : σ}
    {r : Except TransformError Value} {calls : Array Context}
    (run : applyFrom fs text t s = (r, s', calls)) :
    t.postorder.Perm t.nodes ∧
      (∀ before c after, calls.toList = before ++ c :: after → Informed fs text s before c) ∧
      (∀ w, r = .ok w → Completed fs s calls.toList (asked fs t.postorder) s' ∧
        ∀ w' s'', Yields fs text s t w' s'' ↔ w' = w ∧ s'' = s') ∧
      ∀ e, r = .error e → Failed fs s calls.toList (asked fs t.postorder) e s' := by
  have given : Matching.Gives g text v pos tag (.ok (some t)) :=
    Matching.gives_iff.mpr ⟨by simp, depth, h⟩
  have makes : Makes fs text s [] s (do valueOf fs text t (← collect fs text t))
      (asked fs t.postorder) (Yields fs text s t) := makes_apply given.singleRule s
  obtain ⟨made, recorded, informed, completed, failed⟩ := makes #[]
  change (applyFrom fs text t s).2.2.toList = [] ++ made at recorded
  change ∀ a, (applyFrom fs text t s).1 = .ok a →
    Completed fs s made _ (applyFrom fs text t s).2.1 ∧
      Yields fs text s t a (applyFrom fs text t s).2.1 at completed
  change ∀ e, (applyFrom fs text t s).1 = .error e →
    Failed fs s made _ e (applyFrom fs text t s).2.1 at failed
  rw [run] at recorded completed failed
  obtain rfl : calls.toList = made := recorded
  refine ⟨t.postorder_perm_nodes, informed, ?_, failed⟩
  intro w hw
  obtain ⟨all, yields⟩ := completed w hw
  exact ⟨all, fun _ _ => yields.iff⟩

/-- Calls are answered by the number of calls that are left, until there are none. -/
def countdown : Transforms Nat := fun _ => some fun
  | 0, c => (.error (.refused c.node.rule), 0)
  | left + 1, _ => (.ok (.integer left), left)

/-- Below a separator the second call is refused, whatever it is told. -/
theorem separator_calls_in_postorder :
    Matching.evaluate Points.grammar #[',', ' '] 5 (.ref "comma_wsp") 0 "" =
        .ok (some Matching.separatorTree) ∧
      ∃ calls, applyFrom countdown #[',', ' '] Matching.separatorTree 1 =
          (.error (.refused "wsp"), 0, calls) ∧
        Matching.separatorTree.postorder.Perm Matching.separatorTree.nodes ∧
        (∀ before c after, calls.toList = before ++ c :: after →
          Informed countdown #[',', ' '] 1 before c) ∧
        Failed countdown 1 calls.toList (asked countdown Matching.separatorTree.postorder)
          (.refused "wsp") 0 := by
  have matched : Matching.evaluate Points.grammar #[',', ' '] 5 (.ref "comma_wsp") 0 "" =
      .ok (some Matching.separatorTree) := by cbv
  have run : applyFrom countdown #[',', ' '] Matching.separatorTree 1 = (.error (.refused "wsp"), 0,
      (applyFrom countdown #[',', ' '] Matching.separatorTree 1).2.2) := by rfl
  obtain ⟨visited, informed, -, failed⟩ := calls_in_postorder matched countdown run
  exact ⟨matched, _, run, visited, informed, failed _ rfl⟩

end Transform

end OrderedGrammar

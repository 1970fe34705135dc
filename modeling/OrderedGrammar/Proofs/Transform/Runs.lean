import OrderedGrammar.Proofs.Matching.Spans
import OrderedGrammar.Transform.Basic

/-!
When transforming a tree succeeds. `Runs m s a s'` says that a computation gives a value, with what
was kept and recorded before and after it. If every rule node has a value whenever what is below it
has been gathered (`Fine`), the tree has a value (`apply_ok`).
-/

namespace OrderedGrammar

namespace Transform

/-! ### Runs that succeed -/

variable {σ : Type}

/-- The computation gives the value and leaves this state and this record. -/
def Runs {α : Type} (m : Traced σ α) (s : σ × Array Context) (a : α) (s' : σ × Array Context) :
    Prop :=
  m.run.run s = (.ok a, s')

section Runs

variable {α β : Type} {m : Traced σ α} {f : α → Traced σ β} {s s' : σ × Array Context}

theorem runs_pure {a b : α} : Runs (pure a) s b s' ↔ b = a ∧ s' = s := by
  unfold Runs
  constructor
  · rintro ⟨⟩
    exact ⟨rfl, rfl⟩
  · rintro ⟨rfl, rfl⟩
    rfl

theorem runs_bind {b : β} :
    Runs (m >>= f) s b s' ↔ ∃ a s₁, Runs m s a s₁ ∧ Runs (f a) s₁ b s' := by
  unfold Runs
  rw [ExceptT.run_bind, StateT.run_bind]
  rcases h : m.run.run s with ⟨e | a, s₁⟩
  · constructor
    · rintro ⟨⟩
    · rintro ⟨a, s₁, ⟨⟩, -⟩
  · constructor
    · exact fun hb => ⟨a, s₁, rfl, hb⟩
    · rintro ⟨a, s₁, ⟨⟩, hb⟩
      exact hb

theorem run_call (g : Transform σ) (c : Context) (s : σ × Array Context) :
    (call g c).run.run s = ((g s.1 c).1, (g s.1 c).2, s.2.push c) :=
  rfl

theorem runs_call {g : Transform σ} {c : Context} {v : Value} :
    Runs (call g c) s v s' ↔ g s.1 c = (.ok v, s'.1) ∧ s'.2 = s.2.push c := by
  rw [Runs, run_call]
  constructor
  · intro h
    obtain ⟨value, rest⟩ := Prod.mk.inj h
    obtain ⟨state, record⟩ := Prod.mk.inj rest
    exact ⟨Prod.ext value state, record.symm⟩
  · rintro ⟨h, record⟩
    rw [h, ← record]

/-- A call of a transform without a state. -/
theorem runs_call_stateless {g : Context → Except TransformError Value} {c : Context} {v : Value} :
    Runs (call (stateless g) c) s v s' ↔ g c = .ok v ∧ s' = (s.1, s.2.push c) := by
  rw [runs_call, stateless]
  constructor
  · rintro ⟨h, record⟩
    obtain ⟨value, state⟩ := Prod.mk.inj h
    exact ⟨value, Prod.ext state.symm record⟩
  · rintro ⟨value, rfl⟩
    exact ⟨Prod.ext value rfl, rfl⟩

end Runs

variable {fs : Transforms σ} {src : Text}

theorem valueOf_of_some {t : Tree} {f : Transform σ} {vs : List Value} (hr : t.isRule)
    (hf : fs t.rule = some f) : valueOf fs src t vs = call f ⟨t, vs, t.source src⟩ := by
  rw [valueOf, if_pos hr, hf]

theorem valueOf_of_none {t : Tree} {vs : List Value} (hf : fs t.rule = none) :
    valueOf fs src t vs = pure (passOn t vs) := by
  rw [valueOf, hf, ite_self]

/-- What a rule node contributes whose transform has no state. -/
theorem runs_contribution {t : Tree} {f : Context → Except TransformError Value}
    {vs ws : List Value} {s s' : σ × Array Context} (hr : t.isRule)
    (hf : fs t.rule = some (stateless f)) (h : Runs (contribution fs src t vs) s ws s') :
    ∃ v, f ⟨t, vs, t.source src⟩ = .ok v ∧ ws = v.contribution := by
  rw [contribution, if_pos hr] at h
  obtain ⟨v, s₁, hv, hw⟩ := runs_bind.mp h
  rw [valueOf_of_some hr hf] at hv
  exact ⟨v, (runs_call_stateless.mp hv).1, (runs_pure.mp hw).1⟩

/-- Nodes outside every rule pass on what they have gathered. -/
theorem runs_contribution_structural {t : Tree} {vs ws : List Value} {s s' : σ × Array Context}
    (hr : t.isRule = false) :
    Runs (contribution fs src t vs) s ws s' ↔ ws = vs ∧ s' = s := by
  rw [contribution, if_neg (Bool.eq_false_iff.mp hr)]
  exact runs_pure

/-- The node has a value, whatever has been gathered below it. -/
def Fine (fs : Transforms σ) (src : Text) (n : Tree) : Prop :=
  ∀ vs s s', Runs (collect fs src n) s vs s' → ∃ v s₁, Runs (valueOf fs src n vs) s' v s₁

theorem contribution_runs {t : Tree} {vs : List Value} {s s' : σ × Array Context}
    (fine : t.isRule → Fine fs src t) (h : Runs (collect fs src t) s vs s') :
    ∃ ws s₁, Runs (contribution fs src t vs) s' ws s₁ := by
  unfold contribution
  split
  · next hr =>
    obtain ⟨v, s₁, hv⟩ := fine hr vs s s' h
    exact ⟨v.contribution, s₁, runs_bind.mpr ⟨v, s₁, hv, runs_pure.mpr ⟨rfl, rfl⟩⟩⟩
  · exact ⟨vs, s', runs_pure.mpr ⟨rfl, rfl⟩⟩

/-- Several nodes are gathered one after the other. -/
theorem runs_collectAll_cons {t : Tree} {rest : List Tree} {vs : List Value}
    {s s' : σ × Array Context} : Runs (collectAll fs src (t :: rest)) s vs s' ↔
      ∃ us s₁ ws s₂ rs, Runs (collect fs src t) s us s₁ ∧ Runs (contribution fs src t us) s₁ ws s₂ ∧
        Runs (collectAll fs src rest) s₂ rs s' ∧ vs = ws ++ rs := by
  rw [collectAll]
  constructor
  · intro h
    obtain ⟨us, s₁, hc, h⟩ := runs_bind.mp h
    obtain ⟨ws, s₂, hw, h⟩ := runs_bind.mp h
    obtain ⟨rs, s₃, hr, h⟩ := runs_bind.mp h
    obtain ⟨rfl, rfl⟩ := runs_pure.mp h
    exact ⟨us, s₁, ws, s₂, rs, hc, hw, hr, rfl⟩
  · rintro ⟨us, s₁, ws, s₂, rs, hc, hw, hr, rfl⟩
    exact runs_bind.mpr ⟨us, s₁, hc, runs_bind.mpr ⟨ws, s₂, hw,
      runs_bind.mpr ⟨rs, s', hr, runs_pure.mpr ⟨rfl, rfl⟩⟩⟩⟩

mutual

/-- If all rule nodes are fine, what is below a node can be gathered. -/
theorem collect_runs : ∀ (t : Tree) (s : σ × Array Context),
    (∀ n ∈ t.nodes, n.isRule → Fine fs src n) → ∃ vs s', Runs (collect fs src t) s vs s'
  | .text _ str, s, _ => ⟨[.text str], s, runs_pure.mpr ⟨rfl, rfl⟩⟩
  | .single i child, s, h => by
    rw [Tree.nodes_single, List.forall_mem_cons] at h
    obtain ⟨vs, s₁, hc⟩ := collect_runs child s h.2
    obtain ⟨ws, s₂, hw⟩ := contribution_runs (h.2 child child.mem_nodes_self) hc
    exact ⟨ws, s₂, runs_bind.mpr ⟨vs, s₁, hc, hw⟩⟩
  | .list i children, s, h => by
    rw [Tree.nodes_list, List.forall_mem_cons] at h
    exact collectAll_runs children s h.2

theorem collectAll_runs : ∀ (ts : List Tree) (s : σ × Array Context),
    (∀ n ∈ ts.flatMap Tree.nodes, n.isRule → Fine fs src n) →
      ∃ vs s', Runs (collectAll fs src ts) s vs s'
  | [], s, _ => ⟨[], s, runs_pure.mpr ⟨rfl, rfl⟩⟩
  | t :: rest, s, h => by
    rw [List.flatMap_cons, List.forall_mem_append] at h
    obtain ⟨us, s₁, hc⟩ := collect_runs t s h.1
    obtain ⟨ws, s₂, hw⟩ := contribution_runs (h.1 t t.mem_nodes_self) hc
    obtain ⟨rs, s₃, hr⟩ := collectAll_runs rest s₂ h.2
    exact ⟨ws ++ rs, s₃, runs_collectAll_cons.mpr ⟨us, s₁, ws, s₂, rs, hc, hw, hr, rfl⟩⟩

end

/-- The value of a tree is that of its root, given what is gathered below. -/
theorem apply_eq_ok {fs : TransformMap} {t : Tree} {v : Value} (h : (apply fs src t).1 = .ok v) :
    ∃ vs s s', Runs (collect fs src t) ((), #[]) vs s ∧ Runs (valueOf fs src t vs) s v s' := by
  have run : Runs (do valueOf fs src t (← collect fs src t)) ((), #[]) v
      (applyFrom fs src t ()).2 := Prod.ext h rfl
  obtain ⟨vs, s, hc, hv⟩ := runs_bind.mp run
  exact ⟨vs, s, _, hc, hv⟩

/-- A tree whose rule nodes are all fine has a value. -/
theorem apply_ok {fs : TransformMap} {t : Tree} (rule : t.isRule)
    (h : ∀ n ∈ t.nodes, n.isRule → Fine fs src n) : ∃ v, (apply fs src t).1 = .ok v := by
  obtain ⟨vs, s', hc⟩ := collect_runs t ((), #[]) h
  obtain ⟨v, s₁, hv⟩ := h t t.mem_nodes_self rule vs _ _ hc
  have run : Runs (do valueOf fs src t (← collect fs src t)) ((), #[]) v s₁ :=
    runs_bind.mpr ⟨vs, s', hc, hv⟩
  exact ⟨v, congrArg Prod.fst run⟩

end Transform

end OrderedGrammar

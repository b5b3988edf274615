import Vau.Proofs.Parameters
import Vau.Proofs.Session.History
import Vau.Proofs.Shape

/-! The closures that a program has, wherever they lie.

A closure may be bound, captured on a stack, remembered by a native or compiled into the code of
another closure. Wherever it lies, it still is what was made of its source. -/

set_option autoImplicit false

namespace Vau

variable (is : Template → Prop)

mutual

/-- Such a closure is held in the form, not by way of a scope. -/
def Form.Contains : Form → Prop
  | .pair _ car cdr => car.Contains ∨ cdr.Contains
  | .combiner c => c.Contains
  | .nil | .symbol _ | .int _ | .real _ | .bool _ | .ignore | .inert | .environment _ => False

def Combiner.Contains : Combiner → Prop
  | .operative _ _ closure => closure.Contains
  | .applicative _ inner => inner.Contains
  | .continuation stack => stack.Contains
  | .native _ | .eval => False

def Template.Contains : Template → Prop
  | ⟨parameters, formal, source, body, wraps⟩ =>
    is ⟨parameters, formal, source, body, wraps⟩ ∨
      parameters.Contains ∨ formal.Contains ∨ source.Contains ∨ body.Contains

def Code.Contains : Code → Prop
  | .constant value next => value.Contains ∨ next.Contains
  | .close closure next => closure.Contains ∨ next.Contains
  | .define parameters next => parameters.Contains ∨ next.Contains
  | .test consequent alternative => consequent.Contains ∨ alternative.Contains
  | .frame resume next => resume.Contains ∨ next.Contains
  | .apply operands => operands.Contains
  | .refer _ next | .assign _ next | .argument next | .capture next => next.Contains
  | .halt | .call | .ret => False

def Stack.Contains : Stack → Prop
  | .empty => False
  | .push top rest => top.Contains ∨ rest.Contains

def Frame.Contains : Frame → Prop
  | ⟨_, _, resume, _, pending⟩ => resume.Contains ∨ pending.Contains

end

def Machine.Contains (m : Machine) : Prop :=
  (∃ (e : ScopeId) (binding : String × Form),
    binding ∈ m.store.scopes.bindings e ∧ binding.2.Contains is) ∨
  ∃ host ∈ m.hosts, host.memory.Contains is

def Evaluation.Contains (e : Evaluation) : Prop :=
  e.toMachine.Contains is ∨ e.acc.Contains is ∨ e.code.Contains is ∨ e.pending.Contains is ∨
    e.stack.Contains is

def Situation.Contains : Situation → Prop
  | idle s => s.machine.Contains is ∨ ∃ f ∈ s.kept, f.Contains is
  | busy kept e => e.Contains is ∨ ∃ f ∈ kept, f.Contains is

variable {t : Template} {D : Discipline}

/-! What a discipline asks of closures, it asks of every one that is held. -/

mutual

theorem Form.Obeys.contained : ∀ {f : Form}, f.Obeys D → f.Contains (· = t) → D.template t
  | .pair _ _ _, obeys, .inl held => obeys.car.contained held
  | .pair _ _ _, obeys, .inr held => obeys.cdr.contained held
  | .combiner c, obeys, held => Combiner.Obeys.contained (c := c) obeys held

theorem Combiner.Obeys.contained : ∀ {c : Combiner}, c.Obeys D → c.Contains (· = t) → D.template t
  | .operative _ _ _, obeys, held => obeys.2.2.contained held
  | .applicative _ _, obeys, held => obeys.2.contained held
  | .continuation _, obeys, held => obeys.2.contained held

theorem Template.Obeys.contained : ∀ {closure : Template}, closure.Obeys D →
    closure.Contains (· = t) → D.template t
  | ⟨_, _, _, _, _⟩, obeys, .inl same => same ▸ obeys.1
  | ⟨_, _, _, _, _⟩, obeys, .inr (.inl held) => obeys.2.1.contained held
  | ⟨_, _, _, _, _⟩, obeys, .inr (.inr (.inl held)) => obeys.2.2.1.contained held
  | ⟨_, _, _, _, _⟩, obeys, .inr (.inr (.inr (.inl held))) => obeys.2.2.2.1.contained held
  | ⟨_, _, _, _, _⟩, obeys, .inr (.inr (.inr (.inr held))) => obeys.2.2.2.2.contained held

theorem Code.Obeys.contained : ∀ {code : Code}, code.Obeys D → code.Contains (· = t) → D.template t
  | .constant _ _, obeys, .inl held | .define _ _, obeys, .inl held => obeys.1.contained held
  | .constant _ _, obeys, .inr held | .define _ _, obeys, .inr held => obeys.2.contained held
  | .close _ _, obeys, .inl held => obeys.1.contained held
  | .close _ _, obeys, .inr held => obeys.2.contained held
  | .test _ _, obeys, .inl held | .frame _ _, obeys, .inl held => obeys.1.contained held
  | .test _ _, obeys, .inr held | .frame _ _, obeys, .inr held => obeys.2.contained held
  | .apply operands, obeys, held => Form.Obeys.contained (f := operands) obeys held
  | .refer _ next, obeys, held | .assign _ next, obeys, held | .argument next, obeys, held
  | .capture next, obeys, held => @Code.Obeys.contained next obeys held

theorem Stack.Obeys.contained : ∀ {stack : Stack}, stack.Obeys D → stack.Contains (· = t) →
    D.template t
  | .push _ _, obeys, .inl held => obeys.1.contained held
  | .push _ _, obeys, .inr held => obeys.2.contained held

theorem Frame.Obeys.contained : ∀ {frame : Frame}, frame.Obeys D → frame.Contains (· = t) →
    D.template t
  | ⟨_, _, _, _, _⟩, obeys, .inl held => obeys.2.2.1.contained held
  | ⟨_, _, _, _, _⟩, obeys, .inr held => obeys.2.2.2.contained held

end

theorem Machine.Obeys.contained {m : Machine} (obeys : m.Obeys D) (every : ∀ e, D.scope e)
    (held : m.Contains (· = t)) : D.template t := by
  obtain ⟨e, binding, bound, held⟩ | ⟨host, member, held⟩ := held
  · exact (obeys.scopes.value e (every e) binding bound).contained held
  · exact (obeys.hosts host member).2.contained held

theorem Evaluation.Obeys.contained {e : Evaluation} (obeys : e.Obeys D)
    (every : ∀ e, D.scope e) (held : e.Contains (· = t)) : D.template t := by
  obtain held | held | held | held | held := held
  · exact obeys.machine.contained every held
  · exact obeys.acc.contained held
  · exact obeys.code.contained held
  · exact obeys.pending.contained held
  · exact obeys.stack.contained held

namespace Situation

variable {σ : Situation}

theorem compiled_of_contains (leads : Leads new σ) (held : σ.Contains (· = t)) : t.Compiled := by
  have arises := arises_of_leads leads
  have every (e : ScopeId) : Discipline.sourced.scope e := trivial
  cases σ with
  | idle s =>
    have obeys := Session.Reachable.sourced arises
    obtain held | ⟨f, member, held⟩ := held
    · exact obeys.machine.contained every held
    · exact (obeys.kept f member).contained held
  | busy kept e =>
    -- What the program keeps meanwhile, it had before the evaluation.
    obtain ⟨s, reachable, rfl, runs⟩ := arises
    have evaluation : e.Reachable := ⟨s, reachable, runs.running⟩
    obtain held | ⟨f, member, held⟩ := held
    · exact evaluation.sourced.contained every held
    · exact (reachable.sourced.kept f member).contained held

/-- Every closure is what was made of its source. When its body is entered, the name of the caller's
environment takes the place of no parameter. -/
theorem closures_match_sources (leads : Leads new σ) (held : σ.Contains (· = t)) :
    (t.formal = .ignore ∨ ∃ name, t.formal = .symbol name) ∧
    (∀ id, (Form.pair id t.formal t.parameters).checkParameters = .ok ()) ∧
    t.source.compileAll .ret = .ok t.body ∧
    (∀ name, t.formal = .symbol name → ¬ t.parameters.Names name) ∧
    ∀ (e next : Evaluation) (static : ScopeId) (operands : Form),
      e.enter static t operands = .running next →
        next.scope = e.store.scopes.size ∧ next.code = t.body ∧
        e.store.scopes.Entered next.store.scopes static e.scope t.parameters t.formal operands := by
  obtain ⟨checked, compiled⟩ := compiled_of_contains leads held
  obtain ⟨formal, tree⟩ := Form.checkClosure_eq_ok.mp checked
  refine ⟨formal, tree, compiled, (Form.parameters_of_closure checked).2, ?_⟩
  intro e next static operands entered
  obtain ⟨later, enters, _, bound⟩ | ⟨later, p, expected, got, fails, _⟩ :=
    e.enter_outcome static checked operands
  · cases enters.symm.trans entered
    exact ⟨rfl, rfl, bound⟩
  · cases fails.symm.trans entered

/-- A closure in the code that is about to make it, and then entered. -/
theorem closures_match_sources_of_vau : ∃ (e next : Evaluation) (kept : List Form) (t : Template),
    Leads new (busy kept e) ∧ (busy kept e).Contains (· = t) ∧ t.formal = .symbol "e" ∧
      e.enter 0 t (.pair 0 (.int 1) .nil) = .running next ∧
      (next.store.scopes.bindings next.scope).get? "x" = some (.int 1) ∧
      (next.store.scopes.bindings next.scope).get? "e" = some (.environment 0) := by
  let parameters : Form := .pair 0 (.symbol "x") .nil
  let source : Form := .pair 0 (.symbol "x") .nil
  let form : Form := .pair 0 (.symbol "$vau") (.pair 0 parameters (.pair 0 (.symbol "e") source))
  let t : Template := ⟨parameters, .symbol "e", source, .refer "x" .ret, false⟩
  have compiled : form.compile .halt = .ok (.close t .halt) := rfl
  obtain ⟨m, kept, session, _, _, numbered, bound⟩ := Session.Reachable.exists_machine
  have plain : form.Plain m := by
    intro D room
    have zero := room.object 0 numbered
    simp [form, parameters, source, Form.Obeys, zero]
  obtain ⟨kept, leads⟩ := Evaluation.reachable_iff.mp (session.start plain compiled bound)
  have held : (busy kept (m.start (.close t .halt) 0)).Contains (· = t) :=
    .inl (.inr (.inr (.inl (.inl (.inl rfl)))))
  obtain ⟨_, _, _, _, entered⟩ := closures_match_sources leads held
  obtain ⟨scope, _, bound⟩ := entered _ _ 0 (.pair 0 (.int 1) .nil) rfl
  refine ⟨_, _, kept, t, leads, held, rfl, rfl, ?_, ?_⟩
  · obtain ⟨value, given, found⟩ := bound.symbols [.car] "x" rfl
    cases given
    exact scope ▸ found
  · exact scope ▸ bound.caller "e" rfl

end Situation

end Vau

import Vau.Proofs.Renumbering.World

/-! What is done to scopes.

Instructions do a few acts to scopes, one after the other, and call natives. None of the acts moves
a scope, and a new scope is younger than its parent. What holds of scopes in every state needs to
be shown of the acts and of natives only. -/

set_option autoImplicit false

namespace Vau

namespace Scopes

inductive Act (scopes : Scopes) : Scopes → Prop
  | extend {parent : Option ScopeId} : (∀ p, parent = some p → p < scopes.size) →
    Act scopes (scopes.extend parent).2
  | define (e : ScopeId) (name : String) (value : Form) : Act scopes (scopes.define e name value)
  | assign {e : ScopeId} {name : String} {value : Form} {changed : Scopes} :
    scopes.set e name value = .ok changed → Act scopes changed
  | bind (e : ScopeId) (parameters operands : Form) :
    Act scopes (scopes.bind e parameters operands).2
  | clear (e : ScopeId) : Act scopes (scopes.clear e)

abbrev Course : Scopes → Scopes → Prop := Relation.ReflTransGen Act

/-- Scopes stay where they are, and new ones are younger than their parents. -/
structure Inherits (scopes later : Scopes) : Prop where
  size : scopes.size ≤ later.size
  kept : ∀ d, d < scopes.size → later.parent? d = scopes.parent? d
  older : ∀ d p, scopes.size ≤ d → later.parent? d = some p → p < d

/-- What becomes of scopes in one instruction. Natives are called with what the machine knows. -/
inductive Alters (scopes : Scopes) (hosts : Array HostNative) : Scopes → Prop
  | acts {later : Scopes} : scopes.Course later → Alters scopes hosts later
  | native {later : Scopes} (m : Machine) (n : Native) (args : List Form) :
    m.store.scopes = scopes → m.hosts = hosts → m.store.Knows (m.Obeys ·) →
    m.store.Knows (fun D => ∀ x ∈ args, x.Obeys D) →
    later = (m.callNative n args).2.store.scopes → Alters scopes hosts later

variable {scopes middle later : Scopes} {d p : ScopeId}

theorem Alters.same {hosts : Array HostNative} : scopes.Alters hosts scopes := .acts .refl

theorem lt_size_of_parent? (parent : scopes.parent? d = some p) : d < scopes.size := by
  refine Nat.lt_of_not_le fun missing => ?_
  rw [parent?, Array.getElem?_eq_none missing] at parent
  cases parent

namespace Inherits

theorem refl (scopes : Scopes) : scopes.Inherits scopes where
  size := Nat.le_refl _
  kept _ _ := rfl
  older _ _ beyond parent := (Nat.not_lt_of_le beyond (lt_size_of_parent? parent)).elim

theorem trans (first : scopes.Inherits middle) (following : middle.Inherits later) :
    scopes.Inherits later where
  size := Nat.le_trans first.size following.size
  kept d below :=
    (following.kept d (Nat.lt_of_lt_of_le below first.size)).trans (first.kept d below)
  older d p beyond parent := by
    by_cases below : d < middle.size
    · rw [following.kept d below] at parent
      exact first.older d p beyond parent
    · exact following.older d p (Nat.le_of_not_lt below) parent

theorem tree (inherits : scopes.Inherits later) (tree : scopes.Tree) : later.Tree := by
  intro d p parent
  by_cases below : d < scopes.size
  · rw [inherits.kept d below] at parent
    exact tree d p parent
  · exact inherits.older d p (Nat.le_of_not_lt below) parent

end Inherits

theorem inherits_of_parent? (size : later.size = scopes.size)
    (kept : ∀ d, later.parent? d = scopes.parent? d) : scopes.Inherits later where
  size := Nat.le_of_eq size.symm
  kept d _ := kept d
  older d p beyond parent := by
    have below := size ▸ lt_size_of_parent? parent
    exact (Nat.not_lt_of_le beyond below).elim

theorem inherits_define (scopes : Scopes) (e : ScopeId) (name : String) (value : Form) :
    scopes.Inherits (scopes.define e name value) :=
  inherits_of_parent? (size_define ..) fun d => parent?_define scopes e d name value

theorem inherits_bind (scopes : Scopes) (e : ScopeId) (parameters operands : Form) :
    scopes.Inherits (scopes.bind e parameters operands).2 := by
  fun_induction Scopes.bind scopes e parameters operands with
  | case1 scopes name operand => exact inherits_define scopes e name operand
  | case4 scopes id car cdr id' first rest scopes' bound ih ih' =>
    rw [bound] at ih
    exact ih.trans ih'
  | case5 scopes id car cdr id' first rest failed ih => exact ih
  | case2 | case3 | case6 | case7 | case8 => exact .refl _

theorem Act.inherits (act : scopes.Act later) : scopes.Inherits later := by
  cases act with
  | @extend parent there =>
    have size := size_extend scopes parent
    refine ⟨Nat.le.intro size.symm, fun d below => ?_, fun d p beyond found => ?_⟩
    · rw [parent?_extend, if_neg (Nat.ne_of_lt below)]
    · have below := size ▸ lt_size_of_parent? found
      cases Nat.le_antisymm (Nat.le_of_lt_succ below) beyond
      rw [parent?_extend, if_pos rfl] at found
      exact there p found
  | define e name value => exact inherits_define scopes e name value
  | assign assigned =>
    unfold Scopes.set at assigned
    split at assigned
    · cases assigned
      exact inherits_define ..
    · cases assigned
  | bind e parameters operands => exact inherits_bind scopes e parameters operands
  | clear e => exact inherits_of_parent? (size_clear scopes e) (parent?_clear scopes e)

theorem inherits_of_course (course : scopes.Course later) : scopes.Inherits later := by
  induction course with
  | refl => exact .refl scopes
  | tail _ act ih => exact ih.trans act.inherits

end Scopes

namespace Evaluation

variable {e : Evaluation}

theorem alters_apply (closed : e.store.Knows (e.Obeys ·)) {c : Combiner} {operands : Form}
    (combiner : e.store.Knows (c.Obeys ·)) (given : e.store.Knows (operands.Obeys ·)) :
    e.store.scopes.Alters e.hosts (e.apply c operands).machine.store.scopes := by
  have evaluating (inner : Combiner) :
      e.store.scopes.Alters e.hosts (e.evaluateOperands operands inner).machine.store.scopes := by
    unfold evaluateOperands
    split <;> exact .same
  cases c with
  | operative id static t =>
    have below : static < e.store.scopes.size := (combiner _ e.store.spans_discipline).2.1
    have bound : e.store.scopes.Course ((e.store.scopes.extend (some static)).2.bind
        e.store.scopes.size t.parameters operands).2 :=
      .head (.extend fun p same => Option.some.inj same ▸ below) (.single (.bind ..))
    change e.store.scopes.Alters e.hosts (e.enter static t operands).machine.store.scopes
    unfold enter
    simp only [Scopes.extend] at bound ⊢
    split <;> rename_i scopes outcome <;> rw [outcome] at bound
    · exact .acts bound
    · dsimp only [Progress.machine]
      split
      · exact .acts (bound.tail (.define ..))
      · exact .acts bound
  | applicative id inner => exact evaluating inner
  | native n =>
    change e.store.scopes.Alters e.hosts (e.callNative n operands).machine.store.scopes
    unfold callNative
    split
    · rename_i args proper
      rw [machine_settle]
      exact .native e.toMachine n args rfl rfl (fun D spans => (closed D spans).machine)
        (fun D spans => (given D spans).operands proper) rfl
    · exact .same
  | eval =>
    change e.store.scopes.Alters e.hosts (e.callEval operands).machine.store.scopes
    unfold callEval
    dsimp only
    split
    · exact .same
    · split <;> exact .same
    · exact .same
    · exact .same
  | continuation k => exact evaluating _

theorem alters_combine (closed : e.store.Knows (e.Obeys ·)) {c : Combiner} {args : Form}
    (combiner : e.store.Knows (c.Obeys ·)) (given : e.store.Knows (args.Obeys ·)) :
    e.store.scopes.Alters e.hosts (e.combine c args).machine.store.scopes := by
  cases c with
  | continuation stack =>
    change e.store.scopes.Alters e.hosts (e.reinstate stack args).machine.store.scopes
    unfold reinstate
    split <;> exact .same
  | operative | applicative | native | eval =>
    rw [combine_eq_apply (fun k => by nofun)]
    exact alters_apply closed combiner given

theorem alters_execute (closed : e.store.Knows (e.Obeys ·)) :
    e.store.scopes.Alters e.hosts e.execute.machine.store.scopes := by
  have combiner {c : Combiner} (found : e.combiner = .ok c) : e.store.Knows (c.Obeys ·) :=
    fun D spans => (closed D spans).combiner found
  cases here : e.code with
  | refer name next =>
    rw [execute_refer here]
    split <;> exact .same
  | close t next =>
    rw [execute_close here, machine_settle]
    unfold close
    cases t.wraps <;> exact .same
  | define parameters next =>
    have bound : e.store.scopes.Course (e.store.scopes.bind e.scope parameters e.acc).2 :=
      .single (.bind ..)
    rw [execute_define here]
    split <;> rename_i outcome <;> rw [outcome] at bound <;> exact .acts bound
  | assign name next =>
    rw [execute_assign here]
    split
    · rename_i scopes assigned
      exact .acts (.single (.assign assigned))
    · exact .same
  | apply operands =>
    cases found : e.combiner with
    | error error =>
      rw [execute_not_combinable (.inl ⟨_, here⟩) found]
      exact .same
    | ok c =>
      rw [execute_apply here (combiner_eq_ok found)]
      refine alters_apply closed (combiner found) fun D spans => ?_
      have code := (closed D spans).code
      rw [here] at code
      exact code
  | call =>
    cases found : e.combiner with
    | error error =>
      rw [execute_not_combinable (.inr here) found]
      exact .same
    | ok c =>
      rw [execute_call here (combiner_eq_ok found)]
      -- The arguments from the stack are in a chain of new pairs.
      have grows := e.grows_handed.store
      refine @alters_combine e.handed (fun D spans => (closed D (spans.earlier grows)).handed)
        c e.arguments ((combiner found).later grows) fun D spans => ?_
      refine (closed D (spans.earlier grows)).arguments ?_
      exact ⟨⟨fun i _ => spans.object i, fun d _ => spans.scope d⟩, fun i _ _ => spans.frame i⟩
  | ret =>
    rw [execute, here]
    cases e.stack <;> exact .same
  | halt | constant | test | frame | argument | capture =>
    rw [execute, here]
    exact .same

theorem alters_step (closed : e.store.Knows (e.Obeys ·)) :
    e.store.scopes.Alters e.hosts e.step.machine.store.scopes := by
  by_cases exhausted : e.Exhausted
  · obtain ⟨limit, bounded, beyond⟩ := exhausted
    rw [step_of_exhausted bounded beyond]
    exact .same
  · rw [step_of_not_exhausted exhausted]
    exact @alters_execute e.tick fun D spans => (closed D spans).tick

end Evaluation

end Vau

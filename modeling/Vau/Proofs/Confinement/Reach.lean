import Vau.Proofs.Discipline.Action

/-! Which scopes a form leads to.

A form mentions the scopes that it holds, also in closures and in captured stacks. From there
parents and bindings lead on. -/

set_option autoImplicit false

namespace Vau

mutual

/-- The scope is held in the form, not by way of a scope. -/
def Form.Mentions (d : ScopeId) : Form → Prop
  | .pair _ car cdr => car.Mentions d ∨ cdr.Mentions d
  | .combiner c => c.Mentions d
  | .environment e => e = d
  | .nil | .symbol _ | .int _ | .real _ | .bool _ | .ignore | .inert => False

def Combiner.Mentions (d : ScopeId) : Combiner → Prop
  | .operative _ scope t => scope = d ∨ t.Mentions d
  | .applicative _ inner => inner.Mentions d
  | .continuation stack => stack.Mentions d
  | .native _ | .eval => False

/-- A compiled closure holds what its code does, see `Template.Compiled.mentions_iff`. -/
def Template.Mentions (d : ScopeId) : Template → Prop
  | ⟨parameters, formal, source, body, _⟩ =>
    parameters.Mentions d ∨ formal.Mentions d ∨ source.Mentions d ∨ body.Mentions d

def Code.Mentions (d : ScopeId) : Code → Prop
  | .constant value next => value.Mentions d ∨ next.Mentions d
  | .close template next => template.Mentions d ∨ next.Mentions d
  | .test consequent alternative => consequent.Mentions d ∨ alternative.Mentions d
  | .frame resume next => resume.Mentions d ∨ next.Mentions d
  | .apply operands => operands.Mentions d
  | .define parameters next => parameters.Mentions d ∨ next.Mentions d
  | .refer _ next | .assign _ next | .argument next | .capture next => next.Mentions d
  | .halt | .call | .ret => False

def Stack.Mentions (d : ScopeId) : Stack → Prop
  | .empty => False
  | .push top rest => top.Mentions d ∨ rest.Mentions d

def Frame.Mentions (d : ScopeId) : Frame → Prop
  | ⟨_, _, resume, scope, pending⟩ => resume.Mentions d ∨ scope = d ∨ pending.Mentions d

end

/-- The roots lead there, by parents and by what is bound. -/
inductive Scopes.Reaches (scopes : Scopes) (roots : ScopeId → Prop) : ScopeId → Prop
  | root {d : ScopeId} : roots d → Reaches scopes roots d
  | parent {e d : ScopeId} : Reaches scopes roots e → scopes.parent? e = some d →
    Reaches scopes roots d
  | bound {e d : ScopeId} {binding : String × Form} : Reaches scopes roots e →
    binding ∈ scopes.bindings e → binding.2.Mentions d → Reaches scopes roots d

variable {d : ScopeId}

/-! What is compiled. Parameter trees hold no scope, and neither do the heads of special forms. -/

theorem Form.not_mentions_parameters : ∀ {f : Form} {seen names : List String},
    f.parametersAfter seen = .ok names → ¬ f.Mentions d
  | .symbol _, _, _, _ | .nil, _, _, _ | .ignore, _, _, _ => id
  | .pair _ car cdr, _, _, walked => by
    obtain ⟨middle, first, rest⟩ := Except.bind_eq_ok.mp walked
    rintro (here | there)
    · exact not_mentions_parameters first here
    · exact not_mentions_parameters rest there

theorem Form.not_mentions_of_checkClosure {formal parameters : Form}
    (checked : formal.checkClosure parameters = .ok ()) :
    ¬ formal.Mentions d ∧ ¬ parameters.Mentions d := by
  unfold checkClosure at checked
  cases formal with
  | symbol | ignore =>
    obtain ⟨seen, first, rest⟩ := Except.bind_eq_ok.mp checked
    obtain ⟨names, walked, _⟩ := Except.bind_eq_ok.mp rest
    exact ⟨not_mentions_parameters first, not_mentions_parameters walked⟩
  | _ => cases checked

theorem SpecialForm.not_mentions_head {head : Form} {special : SpecialForm} {name : String}
    (found : ofHead? head = some (special, name)) : ¬ head.Mentions d := by
  cases head with
  | symbol => exact id
  | _ => cases found

theorem Code.mentions_framed {code next : Code} (held : code.Mentions d ∨ next.Mentions d) :
    (code.framed next).Mentions d := by
  unfold Code.framed
  split
  · rename_i returns
    cases next <;> cases returns
    exact held.resolve_right id
  · exact held.symm

theorem Expr.mentions_next (x : Expr) {next : Code} (held : next.Mentions d) :
    (x.code next).Mentions d := by
  induction x generalizing next with
  | refer => exact held
  | constant | close => exact .inr held
  | conditional test consequent alternative testIH consequentIH _ =>
    -- Both branches go on there.
    exact testIH (.inl (consequentIH held))
  | define parameters value ih => exact ih (.inr held)
  | assign target value ih => exact @ih (.assign target next) held
  | sequence first rest firstIH restIH => exact firstIH (restIH held)
  | capture | combine => exact Code.mentions_framed (.inr held)

mutual

theorem Form.Reads.mentions : ∀ {f : Form} {x : Expr}, f.Reads x → ∀ {next : Code},
    f.Mentions d → (x.code next).Mentions d
  | _, _, .refer, _, held => held.elim
  | _, _, .constant _ _, _, held => .inl held
  | _, _, .quote head, _, held => by
    rcases held with held | held | held
    · exact (SpecialForm.not_mentions_head head held).elim
    · exact .inl held
    · exact held.elim
  | _, _, .consequent (t := t) head test consequent, _, held => by
    rcases held with held | held | held | held
    · exact (SpecialForm.not_mentions_head head held).elim
    · exact test.mentions held
    · exact t.mentions_next (.inl (consequent.mentions held))
    · exact held.elim
  | _, _, .conditional (t := t) head test consequent alternative, _, held => by
    rcases held with held | held | held | held | held
    · exact (SpecialForm.not_mentions_head head held).elim
    · exact test.mentions held
    · exact t.mentions_next (.inl (consequent.mentions held))
    · exact t.mentions_next (.inr (alternative.mentions held))
    · exact held.elim
  | _, _, .define (v := v) head _ value, _, held => by
    rcases held with held | held | held | held
    · exact (SpecialForm.not_mentions_head head held).elim
    · exact v.mentions_next (.inl held)
    · exact value.mentions held
    · exact held.elim
  | _, _, .assign head value, _, held => by
    rcases held with held | held | held | held
    · exact (SpecialForm.not_mentions_head head held).elim
    · exact held.elim
    · exact value.mentions held
    · exact held.elim
  | _, _, .vau head _ _ checked _, _, held => by
    -- Parameters hold no scope, and the source is kept in the template as it is.
    have parameters := Form.not_mentions_of_checkClosure (d := d) checked
    rcases held with held | held | held | held
    · exact (SpecialForm.not_mentions_head head held).elim
    · exact (parameters.2 held).elim
    · exact (parameters.1 held).elim
    · exact .inl (.inr (.inr (.inl held)))
  | _, _, .lambda head _ _ checked _, _, held => by
    have parameters := Form.not_mentions_of_checkClosure (d := d) checked
    rcases held with held | held | held
    · exact (SpecialForm.not_mentions_head head held).elim
    · exact (parameters.2 held).elim
    · exact .inl (.inr (.inr (.inl held)))
  | _, _, .sequence head proper forms, _, held => by
    rcases held with held | held
    · exact (SpecialForm.not_mentions_head head held).elim
    · exact forms.mentions proper held
  | _, _, .callCC head receiver, _, held => by
    rcases held with held | held | held
    · exact (SpecialForm.not_mentions_head head held).elim
    · exact Code.mentions_framed (.inl (receiver.mentions held))
    · exact held.elim
  | _, _, .combination (h := h) _ operator, _, held => by
    rcases held with held | held
    · exact Code.mentions_framed (.inl (operator.mentions held))
    · exact Code.mentions_framed (.inl (h.mentions_next held))

theorem Form.ReadsAll.mentions : ∀ {f : Form} {x : Expr}, f.ReadsAll x → f.ending.isNil →
    ∀ {next : Code}, f.Mentions d → (x.code next).Mentions d
  | f, _, .none atom, proper, _, held => by
    cases f <;> first | exact held.elim | cases proper | cases atom
  | .pair _ _ rest, _, .last atom form, proper, _, held => by
    rcases held with held | held
    · exact form.mentions held
    · cases rest <;> first | exact held.elim | cases proper | cases atom
  | _, _, .more (x := x) form rest, proper, _, held => by
    rcases held with held | held
    · exact form.mentions held
    · exact x.mentions_next (rest.mentions proper held)

end

/-- The constants of the code are all that a closure holds. Special forms are compiled from proper
lists, so the source of a closure is one. -/
theorem Template.Compiled.mentions_iff {t : Template} (compiled : t.Compiled)
    (proper : t.source.ending.isNil) : t.Mentions d ↔ t.body.Mentions d := by
  obtain ⟨parameters, formal, source, body, wraps⟩ := t
  obtain ⟨x, read, rfl⟩ := Form.compileAll_eq_ok.mp compiled.2
  have none := Form.not_mentions_of_checkClosure (d := d) compiled.1
  constructor
  · rintro (held | held | held | held)
    · exact (none.2 held).elim
    · exact (none.1 held).elim
    · exact read.mentions proper held
    · exact held
  · intro held
    exact .inr (.inr (.inr held))

def Discipline.within (allowed : ScopeId → Prop) : Discipline where
  template _ := True
  stack _ := True
  scope := allowed
  compiled _ _ := trivial

variable {allowed : ScopeId → Prop}

mutual

theorem Form.obeys_within : ∀ {f : Form}, (∀ d, f.Mentions d → allowed d) →
    f.Obeys (.within allowed)
  | .pair _ _ _, held =>
    ⟨trivial, Form.obeys_within fun d here => held d (.inl here),
      Form.obeys_within fun d here => held d (.inr here)⟩
  | .combiner _, held => Combiner.obeys_within held
  | .environment e, held => held e rfl
  | .nil, _ | .symbol _, _ | .int _, _ | .real _, _ | .bool _, _ | .ignore, _ | .inert, _ => trivial

theorem Combiner.obeys_within : ∀ {c : Combiner}, (∀ d, c.Mentions d → allowed d) →
    c.Obeys (.within allowed)
  | .operative _ scope _, held =>
    ⟨trivial, held scope (.inl rfl), Template.obeys_within fun d here => held d (.inr here)⟩
  | .applicative _ _, held => ⟨trivial, Combiner.obeys_within held⟩
  | .continuation _, held => ⟨trivial, Stack.obeys_within held⟩
  | .native _, _ | .eval, _ => trivial

theorem Template.obeys_within : ∀ {t : Template}, (∀ d, t.Mentions d → allowed d) →
    t.Obeys (.within allowed)
  | ⟨_, _, _, _, _⟩, held =>
    ⟨trivial, Form.obeys_within fun d here => held d (.inl here),
      Form.obeys_within fun d here => held d (.inr (.inl here)),
      Form.obeys_within fun d here => held d (.inr (.inr (.inl here))),
      Code.obeys_within fun d here => held d (.inr (.inr (.inr here)))⟩

theorem Code.obeys_within : ∀ {code : Code}, (∀ d, code.Mentions d → allowed d) →
    code.Obeys (.within allowed)
  | .constant _ _, held | .define _ _, held =>
    ⟨Form.obeys_within fun d here => held d (.inl here),
      Code.obeys_within fun d here => held d (.inr here)⟩
  | .close _ _, held =>
    ⟨Template.obeys_within fun d here => held d (.inl here),
      Code.obeys_within fun d here => held d (.inr here)⟩
  | .test _ _, held | .frame _ _, held =>
    ⟨Code.obeys_within fun d here => held d (.inl here),
      Code.obeys_within fun d here => held d (.inr here)⟩
  | .apply _, held => Form.obeys_within held
  | .refer _ next, held | .assign _ next, held | .argument next, held | .capture next, held =>
    @Code.obeys_within next held
  | .halt, _ | .call, _ | .ret, _ => trivial

theorem Stack.obeys_within : ∀ {stack : Stack}, (∀ d, stack.Mentions d → allowed d) →
    stack.Obeys (.within allowed)
  | .empty, _ => trivial
  | .push _ _, held =>
    ⟨Frame.obeys_within fun d here => held d (.inl here),
      Stack.obeys_within fun d here => held d (.inr here)⟩

theorem Frame.obeys_within : ∀ {frame : Frame}, (∀ d, frame.Mentions d → allowed d) →
    frame.Obeys (.within allowed)
  | ⟨_, _, _, scope, _⟩, held =>
    ⟨trivial, held scope (.inr (.inl rfl)), Code.obeys_within fun d here => held d (.inl here),
      Form.obeys_within fun d here => held d (.inr (.inr here))⟩

end

/-- What scopes lead to is closed under what is bound there. Scopes that are not there yet bind
nothing. -/
theorem Scopes.obeys_within {scopes : Scopes} {roots : ScopeId → Prop}
    (reached : ∀ d, allowed d ↔ scopes.size ≤ d ∨ scopes.Reaches roots d) :
    scopes.Obeys (.within allowed) := by
  constructor
  · intro e here binding member
    refine Form.obeys_within fun d mentioned => (reached d).mpr ?_
    rcases (reached e).mp here with missing | leads
    · simp [bindings, missing] at member
    · exact .inr (.bound leads member mentioned)
  · intro e p here found
    refine (reached p).mpr ?_
    rcases (reached e).mp here with missing | leads
    · simp [parent?, missing] at found
    · exact .inr (.parent leads found)

end Vau

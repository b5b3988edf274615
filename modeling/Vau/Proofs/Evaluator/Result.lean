import Vau.Proofs.Evaluator.Agreement

/-! What forms of a few shapes evaluate to, with the numbers that are given out on the way. -/

set_option autoImplicit false

namespace Vau

def World.reserve (w : World) (count : Nat) : World :=
  { w with store.fresh := w.store.fresh + count }

/-- The machine where an evaluation is over. -/
def World.machine (w : World) : Machine := { store := w.store, hosts := w.hosts }

def World.call (w : World) (n : Native) (args : List Form) : Except Error Form × World :=
  ((w.machine.callNative n args).1, (w.machine.callNative n args).2.world)

theorem Form.ending_chain (items : List Form) (fresh : Identity) :
    (chain items .nil fresh).1.ending = .nil := by
  induction items with
  | nil => rfl
  | cons head rest ih => exact ih

theorem Form.items_chain (items : List Form) (fresh : Identity) :
    (chain items .nil fresh).1.items = items := by
  induction items with
  | nil => rfl
  | cons head rest ih => exact congrArg (head :: ·) ih

theorem Form.operands_chain (items : List Form) (fresh : Identity) (text : Form → String) :
    (chain items .nil fresh).1.operands text = .ok items := by
  unfold operands list?
  rw [ending_chain, items_chain]
  rfl

theorem Primitive.ofName?_name (p : Primitive) : SpecialForm.ofName? p.name = none := by
  cases p <;> decide

section

variable {fuel : Nat} {e : ScopeId} {w w' middle : World} {value : Form} {values : List Form}

theorem Form.result_symbol {name : String} (found : w.store.scopes.lookup e name = .ok value) :
    ((symbol name).evaluate (Combiner.combine fuel) e).result w = some (.ok value, w) := by
  unfold evaluate Meaning.lookup
  rw [Meaning.result_onScopes, found]
  rfl

theorem Form.result_quote {i j : Identity} {head : Form} {name : String}
    (special : SpecialForm.ofHead? head = some (.quote, name)) :
    ((pair i head (pair j value nil)).evaluate (Combiner.combine fuel) e).result w =
      some (.ok value, w) := by
  rw [evaluate, special]
  rfl

theorem Form.result_nil :
    (nil.evaluateOperands (Combiner.combine fuel) e).result w = some (.ok [], w) := rfl

section

variable {id : Identity} {operand rest : Form} {exit : Exit}

theorem Form.result_operands
    (first : (operand.evaluate (Combiner.combine fuel) e).result w = some (.ok value, middle))
    (others : (rest.evaluateOperands (Combiner.combine fuel) e).result (middle.reserve 1) =
      some (.ok values, w')) :
    ((pair id operand rest).evaluateOperands (Combiner.combine fuel) e).result w =
      some (.ok (value :: values), w') := by
  unfold evaluateOperands
  rw [Meaning.result_bind, first]
  dsimp only
  rw [Meaning.result_bind]
  change Meaning.result _ (middle.reserve 1) = _
  rw [Meaning.result_bind, others]
  rfl

theorem Form.result_operands_exit
    (first : (operand.evaluate (Combiner.combine fuel) e).result w = some (.error exit, middle)) :
    ((pair id operand rest).evaluateOperands (Combiner.combine fuel) e).result w =
      some (.error exit, middle) := by
  rw [evaluateOperands, Meaning.result_bind, first]

theorem Form.result_operands_exit_later
    (first : (operand.evaluate (Combiner.combine fuel) e).result w = some (.ok value, middle))
    (others : (rest.evaluateOperands (Combiner.combine fuel) e).result (middle.reserve 1) =
      some (.error exit, w')) :
    ((pair id operand rest).evaluateOperands (Combiner.combine fuel) e).result w =
      some (.error exit, w') := by
  unfold evaluateOperands
  rw [Meaning.result_bind, first]
  dsimp only
  rw [Meaning.result_bind]
  change Meaning.result _ (middle.reserve 1) = _
  rw [Meaning.result_bind, others]

end

theorem Meaning.result_list (values : List Form) (w : World) :
    (act (Action.list values)).result w =
      some (.ok (Form.chain values .nil w.store.fresh).1, w.reserve values.length) := by
  unfold World.reserve
  rw [← Form.fresh_chain values .nil w.store.fresh]
  rfl

theorem Meaning.result_call (n : Native) (args : List Form) (fresh : Identity) (w : World) :
    (native n (Form.chain args .nil fresh).1).result w =
      some ((w.call n args).1.mapError .error, (w.call n args).2) := by
  unfold native
  rw [Form.operands_chain]
  rfl

theorem Meaning.result_native {p : Primitive} {store : Store} (fresh : Identity)
    (called : (p.call values).run w.store = (.ok value, store)) :
    (native (.primitive p) (Form.chain values .nil fresh).1).result w =
      some (.ok value, { w with store }) := by
  unfold native
  rw [Form.operands_chain]
  change some ((Machine.callNative { store := w.store, hosts := w.hosts } (.primitive p) values).1
    |>.mapError Exit.error, (Machine.callNative _ (.primitive p) values).2.world) = _
  unfold Machine.callNative Machine.act
  dsimp only
  rw [called]
  rfl

theorem Form.result_named {id : Identity} {name : String} {operands : Form} {c : Combiner}
    (plain : SpecialForm.ofName? name = none)
    (bound : w.store.scopes.lookup e name = .ok (.combiner c)) :
    ((pair id (.symbol name) operands).evaluate (Combiner.combine fuel) e).result w =
      (Combiner.combine fuel c operands e).result w := by
  have head : SpecialForm.ofHead? (.symbol name) = none := by
    unfold SpecialForm.ofHead?
    dsimp only
    rw [plain]
    rfl
  unfold evaluate
  rw [head]
  dsimp only
  rw [Meaning.result_bind, result_symbol bound]
  rfl

section

variable {id : Identity} {c : Combiner} {operands : Form} {code : Code}
  (accepted : operands.compileArguments c = .ok code)

include accepted

theorem Meaning.result_accept (d : Combiner) :
    (accept d c operands).result w = some (.ok (), w) := by
  unfold accept
  rw [accepted]
  rfl

theorem Combiner.result_applicative
    (evaluated : (operands.evaluateOperands (combine fuel) e).result w =
      some (.ok values, middle)) :
    (combine (fuel + 1) (.applicative id c) operands e).result w =
      (c.receive (combine fuel) e values).result middle := by
  rw [combine, Meaning.result_bind, Meaning.result_accept accepted]
  dsimp only
  rw [Meaning.result_bind, evaluated]

theorem Combiner.result_applicative_exit {exit : Exit}
    (evaluated : (operands.evaluateOperands (combine fuel) e).result w =
      some (.error exit, middle)) :
    (combine (fuel + 1) (.applicative id c) operands e).result w = some (.error exit, middle) := by
  rw [combine, Meaning.result_bind, Meaning.result_accept accepted]
  dsimp only
  rw [Meaning.result_bind, evaluated]

end

theorem Combiner.result_receive {c : Combiner} (other : ∀ k, c ≠ .continuation k)
    (values : List Form) : (c.receive (combine fuel) e values).result w =
      (combine fuel c (Form.chain values .nil w.store.fresh).1 e).result
        (w.reserve values.length) := by
  rw [receive_eq other, Meaning.result_bind, Meaning.result_list]

theorem Form.result_call {id wrapper : Identity} {p : Primitive} {operands : Form} {code : Code}
    (bound : w.store.scopes.lookup e p.name =
      .ok (.combiner (.applicative wrapper (.native (.primitive p)))))
    (accepted : operands.compileArguments (.native (.primitive p)) = .ok code)
    (evaluated : (operands.evaluateOperands (Combiner.combine (fuel + 1)) e).result w =
      some (.ok values, middle)) {store : Store}
    (called : (p.call values).run (middle.reserve values.length).store = (.ok value, store)) :
    ((pair id (.symbol p.name) operands).evaluate (Combiner.combine (fuel + 2)) e).result w =
      some (.ok value, { middle with store }) := by
  rw [result_named p.ofName?_name bound, Combiner.result_applicative accepted evaluated,
    Combiner.result_receive (by nofun)]
  exact Meaning.result_native _ called

theorem Form.result_conditional {i j k l : Identity} {head test consequent alternative : Form}
    {name : String} (special : SpecialForm.ofHead? head = some (.conditional, name))
    (tested : (test.evaluate (Combiner.combine fuel) e).result w = some (.ok value, middle)) :
    ((pair i head (pair j test (pair k consequent (pair l alternative .nil)))).evaluate
      (Combiner.combine fuel) e).result w =
        ((if value.isFalse then alternative else consequent).evaluate
          (Combiner.combine fuel) e).result middle := by
  rw [evaluate, special]
  dsimp only
  rw [Meaning.result_bind, tested]
  dsimp only
  split <;> rfl

end

end Vau

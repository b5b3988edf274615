import Vau.Proofs.Hygiene.Call
import Vau.Proofs.Mapping.Part
import Vau.Proofs.Renumbering

/-! `$let` comes to the call of a closure.

The call that `$let` puts together has the operands and the body as they are, but its lists are
made of new pairs. Nothing depends on which pairs a list of parameters or operands is made of. -/

set_option autoImplicit false

namespace Vau

namespace Form

inductive Beside : Form → Form → Prop
  | nil : Beside .nil .nil
  | pair {i j : Identity} {item rest rest' : Form} : Beside rest rest' →
    Beside (.pair i item rest) (.pair j item rest')

theorem beside_of_list? {f g : Form} {items : List Form} (left : f.list? = some items)
    (right : g.list? = some items) : f.Beside g := by
  induction items generalizing f g with
  | nil =>
    obtain rfl := eq_nil_of_list? left
    obtain rfl := eq_nil_of_list? right
    exact .nil
  | cons item rest ih =>
    obtain ⟨i, f, rfl, others⟩ := eq_pair_of_list? left
    obtain ⟨j, g, rfl, others'⟩ := eq_pair_of_list? right
    exact .pair (ih others others')

namespace Beside

variable {f g : Form}

theorem write (beside : f.Beside g) (running : Option Native) (place : Place) :
    f.write running place = g.write running place := by
  induction beside generalizing place with
  | nil => rfl
  | pair _ ih => simp only [Form.write, ih]

theorem ending (beside : f.Beside g) : f.ending = .nil ∧ g.ending = .nil := by
  induction beside with
  | nil => exact ⟨rfl, rfl⟩
  | pair _ ih => exact ih

theorem parametersAfter (beside : f.Beside g) (seen : List String) :
    f.parametersAfter seen = g.parametersAfter seen := by
  induction beside generalizing seen with
  | nil => rfl
  | pair _ ih => simp only [Form.parametersAfter, ih]

theorem exprs (beside : f.Beside g) : f.exprs = g.exprs := by
  induction beside with
  | nil => rfl
  | pair _ ih => rw [Form.exprs, Form.exprs, ih]

theorem bind (beside : f.Beside g) (scopes : Scopes) (e : ScopeId) (operands : Form) :
    scopes.bind e f operands = scopes.bind e g operands := by
  induction beside generalizing scopes operands with
  | nil => rfl
  | @pair i j item rest rest' beside ih =>
    have text : (Form.pair i item rest).text = (Form.pair j item rest').text :=
      (Beside.pair beside).write none .alone
    cases operands with
    | pair _ first others =>
      simp only [Scopes.bind]
      rcases scopes.bind e item first with ⟨_ | _, after⟩
      · rfl
      · exact ih after others
    | _ =>
      simp only [Scopes.bind]
      rw [text]

theorem evaluateOperands (beside : f.Beside g)
    (combine : Combiner → Form → ScopeId → Meaning Form) (e : ScopeId) :
    f.evaluateOperands combine e = g.evaluateOperands combine e := by
  induction beside with
  | nil => rfl
  | pair _ ih => rw [Form.evaluateOperands, Form.evaluateOperands, ih]

/-- Whether the operands compile depends neither on their pairs nor on what they are for. -/
theorem concur_arguments (beside : f.Beside g) (c d : Combiner) :
    Concur (f.compileArguments c) (g.compileArguments d) := by
  obtain ⟨left, right⟩ := beside.ending
  have operands {h : Form} (ends : h.ending = .nil) (text : Form → String) :
      h.operands text = .ok h.items := by
    unfold Form.operands list?
    rw [ends]
    rfl
  unfold compileArguments
  rw [operands left, operands right, compileOperands_eq, compileOperands_eq, beside.exprs]
  exact (Concur.refl _).map _ _

end Beside

def lambdaCall (parameters body operands : Form) (i j k : Identity) : Form :=
  .pair i (.pair j (.symbol "$lambda") (.pair k parameters body)) operands

end Form

section

variable {names names' operands operands' body : Form} {i j k i' j' k' : Identity}

theorem Form.Beside.concur_lambdaCall (named : names.Beside names') (next next' : Code) :
    Concur ((lambdaCall names body operands i j k).compile next)
      ((lambdaCall names' body operands' i' j' k').compile next') := by
  have checked : Form.ignore.checkClosure names = Form.ignore.checkClosure names' := by
    simp only [checkClosure, Form.parametersAfter, named.parametersAfter]
  have special : SpecialForm.ofHead? (.symbol "$lambda") = some (.lambda, "$lambda") := rfl
  rw [compile_eq, compile_eq]
  refine Concur.map (Concur.bind ?_ fun _ _ => .ok _ _) _ _
  simp only [Form.expr, special, checked, Form.ending, Form.items, List.length_cons]
  by_cases proper : body.ending.isNil
  · by_cases empty : body.isNil
    · simp only [proper, empty, Bool.not_true, Bool.false_eq_true, ↓reduceIte]
      exact .error _
    · simp only [proper, empty, Bool.not_true, Bool.false_eq_true, ↓reduceIte]
      exact (Concur.refl _).bind fun _ _ => (Concur.refl _).bind fun _ _ => .ok _ _
  · simp only [proper]
    exact .error _

/-- A closure with other pairs in its parameters does the same, with other pairs in its
operands. -/
theorem Form.Beside.combine (named : names.Beside names') (given : operands.Beside operands')
    (fuel : Nat) (id inner : Identity) (static e : ScopeId) (formal body : Form) (code : Code)
    (wraps : Bool) :
    Combiner.combine fuel (.applicative id
        (.operative inner static ⟨names, formal, body, code, wraps⟩)) operands e =
      Combiner.combine fuel (.applicative id
        (.operative inner static ⟨names', formal, body, code, wraps⟩)) operands' e := by
  have enters (args : Form) : Meaning.enter e static ⟨names, formal, body, code, wraps⟩ args =
      Meaning.enter e static ⟨names', formal, body, code, wraps⟩ args := by
    unfold Meaning.enter
    simp only [named.bind]
  have combines (fuel : Nat) (args : Form) :
      Combiner.combine fuel (.operative inner static ⟨names, formal, body, code, wraps⟩) args e =
        Combiner.combine fuel (.operative inner static ⟨names', formal, body, code, wraps⟩)
          args e := by
    cases fuel with
    | zero => rfl
    | succ fuel => rw [Combiner.combine, Combiner.combine, enters]
  cases fuel with
  | zero => rfl
  | succ fuel =>
    have accepts : Meaning.accept (.applicative id
          (.operative inner static ⟨names, formal, body, code, wraps⟩))
          (.operative inner static ⟨names, formal, body, code, wraps⟩) operands =
        Meaning.accept (.applicative id
          (.operative inner static ⟨names', formal, body, code, wraps⟩))
          (.operative inner static ⟨names', formal, body, code, wraps⟩) operands' := by
      unfold Meaning.accept
      -- The combiner only becomes part of the code, so the operands compile or fail as before.
      have concur := given.concur_arguments
        (.operative inner static ⟨names, formal, body, code, wraps⟩)
        (.operative inner static ⟨names', formal, body, code, wraps⟩)
      generalize operands.compileArguments _ = left at concur
      generalize operands'.compileArguments _ = right at concur
      cases concur <;> rfl
    rw [Combiner.combine, Combiner.combine, accepts, given.evaluateOperands]
    simp only [Combiner.receive, combines]

theorem Form.Beside.evaluate_lambdaCall (named : names.Beside names')
    (given : operands.Beside operands') (fuel : Nat) (e : ScopeId) :
    (lambdaCall names body operands i j k).evaluate (Combiner.combine fuel) e =
      (lambdaCall names' body operands' i' j' k').evaluate (Combiner.combine fuel) e := by
  have special : SpecialForm.ofHead? (.symbol "$lambda") = some (.lambda, "$lambda") := rfl
  have call (names operands : Form) (i j k : Identity) :
      (lambdaCall names body operands i j k).evaluate (Combiner.combine fuel) e = (do
        let code ← Meaning.ofExcept (body.compileAll .ret)
        let inner ← Meaning.act Action.fresh
        let id ← Meaning.act Action.fresh
        Combiner.combine fuel (.applicative id
          (.operative inner e ⟨names, .ignore, body, code, true⟩)) operands e) := by
    have plain (k : Identity) (car cdr : Form) : SpecialForm.ofHead? (.pair k car cdr) = none := rfl
    unfold lambdaCall
    simp only [Form.evaluate, special, plain, Meaning.close]
    cases body.compileAll .ret <;> rfl
  rw [call, call]
  simp only [named.combine given]

end

/-- A list of lists of two, with the first elements and the second elements of each. -/
def Form.Binds (bindings names operands : Form) : Prop :=
  ∃ (given : List Form) (pairs : List (Form × Form)), bindings.list? = some given ∧
    given.map Form.list? = pairs.map (fun p => some [p.1, p.2]) ∧
    names.list? = some (pairs.map Prod.fst) ∧ operands.list? = some (pairs.map Prod.snd)

theorem Form.parts_of_list? {f x y : Form} (both : f.list? = some [x, y]) :
    f.car? = some x ∧ f.second? = some y := by
  obtain ⟨i, rest, rfl, others⟩ := eq_pair_of_list? both
  obtain ⟨j, rest, rfl, _⟩ := eq_pair_of_list? others
  exact ⟨rfl, rfl⟩

theorem Form.map_parts {given : List Form} {pairs : List (Form × Form)}
    (both : given.map Form.list? = pairs.map fun p => some [p.1, p.2]) :
    given.map Form.car? = (pairs.map Prod.fst).map some ∧
      given.map Form.second? = (pairs.map Prod.snd).map some := by
  induction given generalizing pairs with
  | nil =>
    obtain rfl := List.map_eq_nil_iff.mp both.symm
    exact ⟨rfl, rfl⟩
  | cons f rest ih =>
    cases pairs with
    | nil => cases both
    | cons p others =>
      obtain ⟨first, both⟩ := List.cons.inj both
      obtain ⟨car, second⟩ := parts_of_list? first
      obtain ⟨cars, seconds⟩ := ih both
      simp only [List.map_cons, car, second, cars, seconds, and_self]

variable {w : World} {d e : ScopeId} {bindings body : Form}

theorem Scopes.Calls.result_parts (calls : w.store.scopes.Calls d e "bindings" bindings body)
    {part : Form → Option Form} {c : Combiner} {wrapper : Identity} {function : String}
    (found : w.store.scopes.lookup d function = .ok (.combiner (.applicative wrapper c)))
    (serves : c.Serves (World.Gives part) fun _ vs => ∀ v ∈ vs, (part v).isSome)
    {given parts : List Form} (proper : bindings.list? = some given)
    (each : given.map part = parts.map some) (n : Identity) :
    ∃ value later, value.list? = some parts ∧ w.Widens later ∧
      ∀ fuel, 3 * given.length + 4 ≤ fuel →
        ((Form.ofDatum (.list [.symbol "map", .symbol function, .symbol "bindings"]) n).1.evaluate
          (Combiner.combine (fuel + 1)) d).result w = some (.ok value, later) := by
  obtain ⟨id, inner, fresh, map⟩ := calls.equipped.derives.map
  have map := calls.outer _ _ (by decide) map
  have widens := w.widens_reserve 2
  obtain ⟨value, later, list, more, run⟩ := serves.map_part (w := w.reserve 2) proper each
    calls.equipped wrapper inner fresh d
  refine ⟨value, later, list, widens.trans more, fun fuel enough => ?_⟩
  refine (Form.result_named rfl map).trans ((Combiner.result_applicative rfl ?_).trans
    (run fuel enough))
  exact Form.result_operands (Form.result_symbol found)
    (Form.result_operands (Form.result_symbol calls.first) Form.result_nil)

theorem Scopes.Calls.result_letOperator
    (calls : w.store.scopes.Calls d e "bindings" bindings body) {given names : List Form}
    (proper : bindings.list? = some given) (firsts : given.map Form.car? = names.map some)
    (n : Identity) : ∃ (j k : Identity) (value : Form) (later : World),
      value.list? = some names ∧ w.Widens later ∧ ∀ fuel, 3 * given.length + 4 ≤ fuel →
        ((Form.ofDatum .letOperator n).1.evaluate (Combiner.combine (fuel + 3)) d).result w =
          some (.ok (.pair j (.symbol "$lambda") (.pair k value body)), later) := by
  have reserved := calls.widens (w.widens_reserve 1)
  obtain ⟨_, cons⟩ := calls.primitive .cons (by decide)
  obtain ⟨_, cons'⟩ := reserved.primitive .cons (by decide)
  obtain ⟨_, car⟩ := reserved.primitive .car (by decide)
  obtain ⟨value, last, list, more, parted⟩ :=
    reserved.result_parts car Combiner.serves_car proper firsts (n + 2)
  have widens : w.Widens last := (w.widens_reserve 1).trans more
  have rest := (calls.widens (widens.reserve 1)).body
  refine ⟨last.store.fresh + 8, last.store.fresh + 4, value, last.reserve 9, list,
    widens.reserve 9, fun fuel enough => ?_⟩
  have source : ((Form.ofDatum (.list [.symbol "cons", .letNames, .symbol "body"])
      (n + 2)).1.evaluate (Combiner.combine (fuel + 2)) d).result (w.reserve 1) =
        some (.ok (.pair (last.store.fresh + 4) value body), last.reserve 5) :=
    Form.result_call cons' rfl (Form.result_operands (parted fuel enough)
      (Form.result_operands (Form.result_symbol rest) Form.result_nil)) rfl
  exact Form.result_call cons rfl (Form.result_operands (Form.result_quote rfl)
    (Form.result_operands source Form.result_nil)) rfl

theorem Scopes.Calls.result_letCombination
    (calls : w.store.scopes.Calls d e "bindings" bindings body) {given names values : List Form}
    (proper : bindings.list? = some given) (firsts : given.map Form.car? = names.map some)
    (seconds : given.map Form.second? = values.map some) (n : Identity) :
    ∃ (i j k : Identity) (names' operands' : Form) (later : World),
      names'.list? = some names ∧ operands'.list? = some values ∧ w.Widens later ∧
        ∀ fuel, 3 * given.length + 4 ≤ fuel →
          ((Form.ofDatum .letCombination n).1.evaluate (Combiner.combine (fuel + 4)) d).result w =
            some (.ok (Form.lambdaCall names' body operands' i j k), later) := by
  obtain ⟨_, cons⟩ := calls.primitive .cons (by decide)
  obtain ⟨j, k, names', middle, list, widens, operator⟩ :=
    calls.result_letOperator proper firsts n
  have calls := calls.widens (widens.reserve 1)
  obtain ⟨_, inner, fresh, second⟩ := calls.equipped.derives.second
  obtain ⟨operands', last, list', more, parted⟩ := calls.result_parts
    (calls.outer _ _ (by decide) second) (Combiner.serves_second _ _) proper seconds (n + 11)
  refine ⟨last.store.fresh + 3, j, k, names', operands', last.reserve 4, list, list',
    ((widens.reserve 1).trans more).reserve 4, fun fuel enough => ?_⟩
  exact Form.result_call cons rfl (Form.result_operands (operator fuel enough)
    (Form.result_operands (parted (fuel + 2) (by omega)) Form.result_nil)) rfl

theorem Form.result_let {names operands : Form} {id i j fresh : Identity}
    (bound : w.store.scopes.lookup e "$let" =
      .ok (.combiner (.operative id Machine.ground (.letting fresh))))
    (equipped : w.store.scopes.Equipped) (binds : bindings.Binds names operands) :
    ∃ names' operands', names.Beside names' ∧ operands.Beside operands' ∧
      ∃ (i' j' k' : Identity) (later : World) (enough : Nat), w.Widens later ∧
        ∀ fuel, enough ≤ fuel →
          (pair i (.symbol "$let") (.pair j bindings body)).outcome (fuel + 3) e w =
            match (lambdaCall names' body operands' i' j' k').compile .ret with
            | .ok _ => (lambdaCall names' body operands' i' j' k').outcome fuel e later
            | .error error => some (.error (.error error), later) := by
  obtain ⟨given, pairs, proper, both, named, valued⟩ := binds
  obtain ⟨firsts, seconds⟩ := map_parts both
  obtain ⟨called, widens, _, calls, run⟩ := @result_derived w e "bindings" bindings body id i j
    fresh "$let" (.letting fresh) rfl bound rfl rfl rfl equipped
  obtain ⟨i', j', k', names', operands', last, list, list', more, combination⟩ :=
    calls.result_letCombination proper firsts seconds (fresh + 1)
  refine ⟨names', operands', beside_of_list? named list, beside_of_list? valued list', i', j', k',
    last.reserve 4, 3 * given.length + 7, (widens.trans more).reserve 4, fun fuel enough => ?_⟩
  obtain ⟨fewer, rfl⟩ : ∃ fewer, fuel = fewer + 3 := ⟨fuel - 3, by omega⟩
  obtain ⟨_, eval⟩ := calls.eval (by decide)
  have environment := (calls.widens (more.reserve 1)).caller
  refine (run (fewer + 5)).trans ?_
  exact @result_eval _ (fresh + 20) _ _ _ _ _ _ _ _ eval rfl
    (result_operands (combination fewer (by omega))
      (result_operands (result_symbol environment) result_nil))

end Vau

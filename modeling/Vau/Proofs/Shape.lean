import Vau.Proofs.Fault.Compile

/-! The forms that compile.

They are told by their shape alone, without a look at the code that comes next. -/

set_option autoImplicit false

namespace Vau

namespace SpecialForm

def spellings : SpecialForm → List String
  | quote => ["$quote"]
  | conditional => ["$if", "if"]
  | define => ["$define!"]
  | assign => ["$set!", "set!"]
  | vau => ["$vau"]
  | lambda => ["$lambda", "lambda"]
  | sequence => ["$sequence", "$begin"]
  | callCC => ["call/cc"]

theorem ofName?_eq_some {special : SpecialForm} {name : String} :
    ofName? name = some special ↔ name ∈ special.spellings := by
  constructor
  · intro found
    obtain ⟨k, spelled, same⟩ := Option.bind_eq_some_iff.mp found
    obtain rfl : k.spelling = name := by
      simpa using List.find?_some spelled
    cases k <;> cases same <;> decide
  · intro member
    cases special <;> simp only [spellings, List.mem_cons, List.not_mem_nil, or_false] at member
    case conditional | assign | lambda | sequence =>
      rcases member with rfl | rfl <;> decide
    all_goals
      subst member
      decide

theorem ofHead?_eq_some {special : SpecialForm} {head : Form} {name : String} :
    ofHead? head = some (special, name) ↔ head = .symbol name ∧ name ∈ special.spellings := by
  rw [← ofName?_eq_some]
  cases head with
  | symbol other =>
    simp only [ofHead?, Option.map_eq_some_iff, Prod.mk.injEq, Form.symbol.injEq]
    constructor
    · rintro ⟨found, named, rfl, rfl⟩
      exact ⟨rfl, named⟩
    · rintro ⟨rfl, named⟩
      exact ⟨special, named, rfl, rfl⟩
  | _ => simp [ofHead?]

/-- Operands that are right for a special form, and those of them that it evaluates. -/
inductive Shapes : SpecialForm → List Form → List Form → Prop
  | quote {value : Form} : Shapes .quote [value] []
  | consequent {test consequent : Form} :
    Shapes .conditional [test, consequent] [test, consequent]
  | alternative {test consequent alternative : Form} :
    Shapes .conditional [test, consequent, alternative] [test, consequent, alternative]
  | define {parameters value : Form} : parameters.checkParameters = .ok () →
    Shapes .define [parameters, value] [value]
  | assign {target : String} {value : Form} : Shapes .assign [.symbol target, value] [value]
  | vau {parameters formal form : Form} {rest : List Form} :
    (formal = .ignore ∨ ∃ name, formal = .symbol name) →
    (∀ id, (Form.pair id formal parameters).checkParameters = .ok ()) →
    Shapes .vau (parameters :: formal :: form :: rest) (form :: rest)
  | lambda {parameters form : Form} {rest : List Form} : parameters.checkParameters = .ok () →
    Shapes .lambda (parameters :: form :: rest) (form :: rest)
  | sequence {forms : List Form} : Shapes .sequence forms forms
  | callCC {receiver : Form} : Shapes .callCC [receiver] [receiver]

end SpecialForm

namespace Form

theorem checkClosure_eq_ok {formal parameters : Form} : formal.checkClosure parameters = .ok () ↔
    (formal = ignore ∨ ∃ name, formal = symbol name) ∧
      ∀ id, (pair id formal parameters).checkParameters = .ok () := by
  cases formal with
  | ignore => exact ⟨fun checked => ⟨.inl rfl, fun _ => checked⟩, fun ⟨_, checked⟩ => checked 0⟩
  | symbol name =>
    exact ⟨fun checked => ⟨.inr ⟨name, rfl⟩, fun _ => checked⟩, fun ⟨_, checked⟩ => checked 0⟩
  | _ =>
    refine ⟨nofun, ?_⟩
    rintro ⟨same | ⟨_, same⟩, _⟩ <;> cases same

/-- A pair whose head names a special form has operands that are right for it, and all that it
evaluates is well-shaped in turn. Any other pair has a well-shaped operator; its operands can be
anything. -/
inductive WellShaped : Form → Prop
  | atom {f : Form} : f.car? = none → WellShaped f
  | special {id : Identity} {special : SpecialForm} {name : String} {operands : Form}
      {args evaluated : List Form} :
    name ∈ special.spellings → operands.list? = some args → special.Shapes args evaluated →
    (∀ f ∈ evaluated, f.WellShaped) → WellShaped (.pair id (.symbol name) operands)
  | combination {id : Identity} {head operands : Form} :
    (∀ (special : SpecialForm), ∀ name ∈ special.spellings, head ≠ .symbol name) →
    head.WellShaped → WellShaped (.pair id head operands)

section

variable {f first : Form} {rest : List Form}

theorem list?_eq_some_nil : f.list? = some [] ↔ f = nil :=
  ⟨eq_nil_of_list?, fun same => same ▸ rfl⟩

theorem list?_eq_some_cons : f.list? = some (first :: rest) ↔
    ∃ id tail, f = pair id first tail ∧ tail.list? = some rest := by
  constructor
  · exact eq_pair_of_list?
  · rintro ⟨id, tail, rfl, proper⟩
    exact list?_pair proper

theorem readsAll_of_list? {items : List Form} (proper : f.list? = some items)
    (each : ∀ item ∈ items, ∃ x : Expr, item.Reads x) :
    f.ending.isNil = true ∧ f.isNil = items.isEmpty ∧ ∃ x : Expr, f.ReadsAll x := by
  have same := items_of_list? proper
  refine ⟨?_, ?_, readsAll_of_items (same ▸ each)⟩
  · unfold list? at proper
    split at proper
    · rename_i ended
      exact ended
    · cases proper
  · cases items with
    | nil =>
      rw [list?_eq_some_nil.mp proper]
      rfl
    | cons first rest =>
      obtain ⟨_, _, rfl, _⟩ := list?_eq_some_cons.mp proper
      rfl

end

theorem WellShaped.reads {f : Form} (shaped : f.WellShaped) : ∃ x : Expr, f.Reads x := by
  -- The induction is on the shape: it speaks of lists of operands, where the grammar takes pairs.
  induction shaped with
  | @atom f atom =>
    cases f with
    | symbol name => exact ⟨_, .refer⟩
    | pair => cases atom
    | _ => exact ⟨_, .constant rfl rfl⟩
  | @special id special name operands args evaluated named proper shapes _ ih =>
    have found := SpecialForm.ofHead?_eq_some.mpr ⟨rfl, named⟩
    cases shapes with
    | quote =>
      simp only [list?_eq_some_cons, list?_eq_some_nil] at proper
      obtain ⟨_, _, rfl, rfl⟩ := proper
      exact ⟨_, .quote found⟩
    | consequent =>
      simp only [list?_eq_some_cons, list?_eq_some_nil] at proper
      obtain ⟨_, _, rfl, _, _, rfl, rfl⟩ := proper
      simp only [List.forall_mem_cons] at ih
      obtain ⟨⟨_, test⟩, ⟨_, consequent⟩, _⟩ := ih
      exact ⟨_, .consequent found test consequent⟩
    | alternative =>
      simp only [list?_eq_some_cons, list?_eq_some_nil] at proper
      obtain ⟨_, _, rfl, _, _, rfl, _, _, rfl, rfl⟩ := proper
      simp only [List.forall_mem_cons] at ih
      obtain ⟨⟨_, test⟩, ⟨_, consequent⟩, ⟨_, alternative⟩, _⟩ := ih
      exact ⟨_, .conditional found test consequent alternative⟩
    | define checked =>
      simp only [list?_eq_some_cons, list?_eq_some_nil] at proper
      obtain ⟨_, _, rfl, _, _, rfl, rfl⟩ := proper
      obtain ⟨_, value⟩ := List.forall_mem_singleton.mp ih
      exact ⟨_, .define found checked value⟩
    | assign =>
      simp only [list?_eq_some_cons, list?_eq_some_nil] at proper
      obtain ⟨_, _, rfl, _, _, rfl, rfl⟩ := proper
      obtain ⟨_, value⟩ := List.forall_mem_singleton.mp ih
      exact ⟨_, .assign found value⟩
    | vau formal checked =>
      obtain ⟨_, _, rfl, others⟩ := list?_eq_some_cons.mp proper
      obtain ⟨_, _, rfl, forms⟩ := list?_eq_some_cons.mp others
      obtain ⟨ended, nonempty, _, body⟩ := readsAll_of_list? forms ih
      exact ⟨_, .vau found ended nonempty (checkClosure_eq_ok.mpr ⟨formal, checked⟩) body⟩
    | lambda checked =>
      obtain ⟨_, _, rfl, forms⟩ := list?_eq_some_cons.mp proper
      obtain ⟨ended, nonempty, _, body⟩ := readsAll_of_list? forms ih
      exact ⟨_, .lambda found ended nonempty checked body⟩
    | sequence =>
      obtain ⟨ended, _, _, forms⟩ := readsAll_of_list? proper ih
      exact ⟨_, .sequence found ended forms⟩
    | callCC =>
      simp only [list?_eq_some_cons, list?_eq_some_nil] at proper
      obtain ⟨_, _, rfl, rfl⟩ := proper
      obtain ⟨_, receiver⟩ := List.forall_mem_singleton.mp ih
      exact ⟨_, .callCC found receiver⟩
  | combination other _ ih =>
    obtain ⟨x, read⟩ := ih
    refine ⟨_, .combination ?_ read⟩
    rw [Option.eq_none_iff_forall_not_mem]
    rintro ⟨special, name⟩ found
    obtain ⟨same, named⟩ := SpecialForm.ofHead?_eq_some.mp found
    exact other special name named same

theorem WellShaped.of_ofHead? {id : Identity} {special : SpecialForm} {name : String}
    {head operands : Form} {args evaluated : List Form}
    (found : SpecialForm.ofHead? head = some (special, name)) (proper : operands.list? = some args)
    (shapes : special.Shapes args evaluated) (each : ∀ f ∈ evaluated, f.WellShaped) :
    (pair id head operands).WellShaped := by
  obtain ⟨rfl, named⟩ := SpecialForm.ofHead?_eq_some.mp found
  exact .special named proper shapes each

mutual

theorem Reads.wellShaped : ∀ {f : Form} {x : Expr}, f.Reads x → f.WellShaped
  | _, _, .refer => .atom rfl
  | _, _, .constant _ atom => .atom atom
  | _, _, .quote found => .of_ofHead? found rfl .quote nofun
  | _, _, .consequent found t c => by
    refine .of_ofHead? found rfl .consequent ?_
    simp only [List.forall_mem_cons]
    exact ⟨t.wellShaped, c.wellShaped, nofun⟩
  | _, _, .conditional found t c a => by
    refine .of_ofHead? found rfl .alternative ?_
    simp only [List.forall_mem_cons]
    exact ⟨t.wellShaped, c.wellShaped, a.wellShaped, nofun⟩
  | _, _, .define found checked v =>
    .of_ofHead? found rfl (.define checked) (List.forall_mem_singleton.mpr v.wellShaped)
  | _, _, .assign found v =>
    .of_ofHead? found rfl .assign (List.forall_mem_singleton.mpr v.wellShaped)
  | .pair _ _ (.pair _ _ (.pair _ _ source)), _, .vau found proper nonempty checked b => by
    obtain ⟨formal, checked⟩ := checkClosure_eq_ok.mp checked
    have forms := b.wellShaped
    -- A proper list that is not empty begins with a form.
    cases source with
    | pair => exact .of_ofHead? found (if_pos proper) (.vau formal checked) forms
    | nil => cases nonempty
    | _ => cases proper
  | .pair _ _ (.pair _ _ source), _, .lambda found proper nonempty checked b => by
    have forms := b.wellShaped
    cases source with
    | pair => exact .of_ofHead? found (if_pos proper) (.lambda checked) forms
    | nil => cases nonempty
    | _ => cases proper
  | _, _, .sequence found proper b => .of_ofHead? found (if_pos proper) .sequence b.wellShaped
  | _, _, .callCC found r =>
    .of_ofHead? found rfl .callCC (List.forall_mem_singleton.mpr r.wellShaped)
  | _, _, .combination other h => by
    refine .combination (fun special name named same => ?_) h.wellShaped
    rw [SpecialForm.ofHead?_eq_some.mpr ⟨same, named⟩] at other
    cases other

theorem ReadsAll.wellShaped :
    ∀ {f : Form} {x : Expr}, f.ReadsAll x → ∀ item ∈ f.items, item.WellShaped
  | f, _, .none atom => by
    cases f with
    | pair => cases atom
    | _ => nofun
  | .pair _ _ rest, _, .last atom x => by
    cases rest with
    | pair => cases atom
    | _ => exact List.forall_mem_singleton.mpr x.wellShaped
  | _, _, .more x y => List.forall_mem_cons.mpr ⟨x.wellShaped, y.wellShaped⟩

end

theorem wellShaped_iff {f : Form} : f.WellShaped ↔ ∃ x : Expr, f.Reads x :=
  ⟨WellShaped.reads, fun ⟨_, read⟩ => read.wellShaped⟩

/-- The well-shaped forms compile, whatever code comes next. On any other form compiling fails, and
with the same error whatever code comes next. -/
theorem compiles_exactly (f : Form) :
    (∀ next, (∃ code, f.compile next = .ok code) ↔ f.WellShaped) ∧
      ((∃ error, ∀ next, f.compile next = .error error) ↔ ¬ f.WellShaped) := by
  rw [wellShaped_iff]
  refine ⟨fun next => ?_, ?_⟩
  · constructor
    · rintro ⟨code, compiled⟩
      obtain ⟨x, read, _⟩ := compile_eq_ok.mp compiled
      exact ⟨x, read⟩
    · rintro ⟨x, read⟩
      exact ⟨_, compile_eq_ok.mpr ⟨x, read, rfl⟩⟩
  · simp only [refused_iff, ← expr_eq_ok]
    cases f.expr <;> simp

end Form

end Vau

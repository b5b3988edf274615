import Vau.Proofs.Checked
import Vau.Proofs.Resolution

/-! What a parameter tree binds.

A position is found by turns from the root of a tree. Parameters are matched with operands position
by position, from left to right, up to the first where the operands do not have the shape that is
asked for. -/

set_option autoImplicit false

namespace Vau

inductive Side where
  | car
  | cdr

inductive Before : List Side → List Side → Prop
  | apart {p q : List Side} : Before (.car :: p) (.cdr :: q)
  | within {s : Side} {p q : List Side} : Before p q → Before (s :: p) (s :: q)

theorem Before.not_nil {p : List Side} (before : Before p []) : False := by cases before

theorem Before.not_back {p q : List Side} (before : Before (.cdr :: p) (.car :: q)) : False := by
  cases before

theorem before_iff_of_same {s : Side} {p q : List Side} :
    Before (s :: p) (s :: q) ↔ Before p q := by
  constructor
  · intro before
    cases before with
    | within before => exact before
  · exact .within

namespace Form

def isPair : Form → Bool
  | pair .. => true
  | _ => false

def at? : List Side → Form → Option Form
  | [], f => some f
  | .car :: p, pair _ car _ => car.at? p
  | .cdr :: p, pair _ _ cdr => cdr.at? p
  | _ :: _, _ => none

def Names (f : Form) (name : String) : Prop := ∃ p, f.at? p = some (symbol name)

def Distinct (f : Form) : Prop :=
  ∀ p q name, f.at? p = some (symbol name) → f.at? q = some (symbol name) → p = q

/-- There is a pair wherever the parameters have one, and nil wherever they have nil. -/
def Fits (parameters operands : Form) : Prop := ∀ p,
  ((∃ id car cdr, parameters.at? p = some (pair id car cdr)) →
    ∃ id first rest, operands.at? p = some (pair id first rest)) ∧
  (parameters.at? p = some nil → operands.at? p = some nil)

inductive Unlike : Form → Form → Prop
  | pair {id : Identity} {car cdr got : Form} : got.isPair = false → Unlike (pair id car cdr) got
  | nil {got : Form} : got ≠ nil → Unlike nil got

structure Differ (parameters operands : Form) (p : List Side) (expected got : Form) : Prop where
  asked : parameters.at? p = some expected
  given : operands.at? p = some got
  unlike : expected.Unlike got
  first : ∀ q expected got, parameters.at? q = some expected → operands.at? q = some got →
    expected.Unlike got → q = p ∨ Before p q

variable {f car cdr first rest expected got : Form} {id id' : Identity} {name : String}
  {p : List Side} {seen names : List String}

theorem at?_of_atom (atom : f.isPair = false) {g : Form} (there : f.at? p = some g) :
    p = [] ∧ f = g := by
  cases p with
  | nil => exact ⟨rfl, Option.some.inj there⟩
  | cons side p =>
    cases f with
    | pair => cases atom
    | _ => cases side <;> cases there

theorem names_of_atom (atom : f.isPair = false) : f.Names name ↔ f = symbol name := by
  constructor
  · rintro ⟨p, there⟩
    exact (at?_of_atom atom there).2
  · rintro rfl
    exact ⟨[], rfl⟩

theorem names_pair : (pair id car cdr).Names name ↔ car.Names name ∨ cdr.Names name := by
  constructor
  · rintro ⟨p, there⟩
    match p, there with
    | .car :: p, there => exact .inl ⟨p, there⟩
    | .cdr :: p, there => exact .inr ⟨p, there⟩
  · rintro (⟨p, there⟩ | ⟨p, there⟩)
    · exact ⟨.car :: p, there⟩
    · exact ⟨.cdr :: p, there⟩

theorem distinct_of_atom (atom : f.isPair = false) : f.Distinct := fun _ _ _ here there =>
  (at?_of_atom atom here).1.trans (at?_of_atom atom there).1.symm

theorem distinct_pair : (pair id car cdr).Distinct ↔
    car.Distinct ∧ cdr.Distinct ∧ ∀ name, car.Names name → ¬ cdr.Names name := by
  constructor
  · intro distinct
    refine ⟨fun p q name here there => ?_, fun p q name here there => ?_, ?_⟩
    · exact List.tail_eq_of_cons_eq (distinct (.car :: p) (.car :: q) name here there)
    · exact List.tail_eq_of_cons_eq (distinct (.cdr :: p) (.cdr :: q) name here there)
    · rintro name ⟨p, here⟩ ⟨q, there⟩
      cases distinct (.car :: p) (.cdr :: q) name here there
  · rintro ⟨left, right, apart⟩ p q name here there
    match p, q, here, there with
    | .car :: p, .car :: q, here, there => exact congrArg _ (left p q name here there)
    | .cdr :: p, .cdr :: q, here, there => exact congrArg _ (right p q name here there)
    | .car :: p, .cdr :: q, here, there => exact (apart name ⟨p, here⟩ ⟨q, there⟩).elim
    | .cdr :: p, .car :: q, here, there => exact (apart name ⟨q, there⟩ ⟨p, here⟩).elim

theorem isParameters_iff : ∀ {f : Form}, f.IsParameters ↔ ∀ p leaf, f.at? p = some leaf →
    leaf.isPair = false → leaf = nil ∨ leaf = ignore ∨ ∃ name, leaf = symbol name
  | pair _ car cdr => by
    rw [IsParameters, isParameters_iff, isParameters_iff]
    constructor
    · rintro ⟨left, right⟩ p leaf there atom
      match p, there with
      | [], rfl => cases atom
      | .car :: p, there => exact left p leaf there atom
      | .cdr :: p, there => exact right p leaf there atom
    · intro leaves
      exact ⟨fun p => leaves (.car :: p), fun p => leaves (.cdr :: p)⟩
  | symbol _ | ignore | nil => by
    refine ⟨fun _ p leaf there _ => ?_, fun _ => trivial⟩
    obtain ⟨_, rfl⟩ := at?_of_atom rfl there
    simp
  | int _ | real _ | bool _ | inert | combiner _ | environment _ => by
    refine ⟨False.elim, fun leaves => ?_⟩
    simpa using leaves [] _ rfl rfl

theorem mem_parametersAfter : ∀ {f : Form} {seen names : List String},
    f.parametersAfter seen = .ok names → ∀ name, name ∈ names ↔ name ∈ seen ∨ f.Names name
  | symbol bound, seen, names, walked, name => by
    unfold parametersAfter at walked
    split at walked
    · cases walked
    · cases walked
      rw [names_of_atom rfl, List.mem_cons, symbol.injEq, or_comm, eq_comm]
  | nil, _, _, walked, name | ignore, _, _, walked, name => by
    cases walked
    rw [names_of_atom rfl]
    simp
  | pair _ car cdr, _, _, walked, name => by
    obtain ⟨_, first, rest⟩ := Except.bind_eq_ok.mp walked
    rw [mem_parametersAfter rest, mem_parametersAfter first, names_pair, or_assoc]
  | int _, _, _, walked, _ | real _, _, _, walked, _ | bool _, _, _, walked, _
  | inert, _, _, walked, _ | combiner _, _, _, walked, _ | environment _, _, _, walked, _ => by
    cases walked

theorem parametersAfter_eq_ok : ∀ {f : Form} {seen : List String},
    (∃ names, f.parametersAfter seen = .ok names) ↔
      f.IsParameters ∧ f.Distinct ∧ ∀ name, f.Names name → name ∉ seen
  | symbol bound, seen => by
    have once := distinct_of_atom (f := symbol bound) rfl
    unfold parametersAfter
    by_cases met : bound ∈ seen
    · rw [if_pos (List.contains_iff_mem.mpr met)]
      exact ⟨nofun, fun ⟨_, _, new⟩ => (new bound ⟨[], rfl⟩ met).elim⟩
    · rw [if_neg (mt List.contains_iff_mem.mp met)]
      refine ⟨fun _ => ⟨trivial, once, fun name named => ?_⟩, fun _ => ⟨_, rfl⟩⟩
      cases (names_of_atom rfl).mp named
      exact met
  | nil, seen | ignore, seen =>
    ⟨fun _ => ⟨trivial, distinct_of_atom rfl, fun _ named => nomatch (names_of_atom rfl).mp named⟩,
      fun _ => ⟨seen, rfl⟩⟩
  | pair id car cdr, seen => by
    rw [distinct_pair]
    constructor
    · rintro ⟨names, walked⟩
      obtain ⟨middle, first, rest⟩ := Except.bind_eq_ok.mp walked
      have met := mem_parametersAfter first
      obtain ⟨carTree, carOnce, carNew⟩ := parametersAfter_eq_ok.mp ⟨_, first⟩
      obtain ⟨cdrTree, cdrOnce, cdrNew⟩ := parametersAfter_eq_ok.mp ⟨_, rest⟩
      refine ⟨⟨carTree, cdrTree⟩, ⟨carOnce, cdrOnce, fun name left right => ?_⟩, ?_⟩
      · exact cdrNew name right ((met name).mpr (.inr left))
      · intro name named
        rcases names_pair.mp named with left | right
        · exact carNew name left
        · exact fun before => cdrNew name right ((met name).mpr (.inl before))
    · rintro ⟨⟨carTree, cdrTree⟩, ⟨carOnce, cdrOnce, apart⟩, new⟩
      obtain ⟨middle, first⟩ := parametersAfter_eq_ok.mpr
        ⟨carTree, carOnce, fun name left => new name (names_pair.mpr (.inl left))⟩
      have cdrNew (name : String) (right : cdr.Names name) : name ∉ middle := by
        rw [mem_parametersAfter first]
        rintro (before | left)
        · exact new name (names_pair.mpr (.inr right)) before
        · exact apart name left right
      obtain ⟨names, rest⟩ := parametersAfter_eq_ok.mpr ⟨cdrTree, cdrOnce, cdrNew⟩
      exact ⟨names, Except.bind_eq_ok.mpr ⟨middle, first, rest⟩⟩
  | int _, _ | real _, _ | bool _, _ | inert, _ | combiner _, _ | environment _, _ =>
    ⟨nofun, fun ⟨tree, _⟩ => tree.elim⟩

theorem checkParameters_eq_ok : f.checkParameters = .ok () ↔ f.IsParameters ∧ f.Distinct := by
  have walks : (∃ names, f.parametersAfter [] = .ok names) ↔
      f.IsParameters ∧ f.Distinct ∧ ∀ name, f.Names name → name ∉ [] := parametersAfter_eq_ok
  constructor
  · intro checked
    obtain ⟨names, walked, _⟩ := Except.bind_eq_ok.mp checked
    obtain ⟨tree, once, _⟩ := walks.mp ⟨names, walked⟩
    exact ⟨tree, once⟩
  · rintro ⟨tree, once⟩
    obtain ⟨names, walked⟩ := walks.mpr ⟨tree, once, fun _ _ => List.not_mem_nil⟩
    exact Except.bind_eq_ok.mpr ⟨names, walked, rfl⟩

/-- The parameters of a closure are a parameter tree without the name of its formal. -/
theorem parameters_of_closure {formal parameters : Form}
    (checked : formal.checkClosure parameters = .ok ()) :
    parameters.checkParameters = .ok () ∧ ∀ name, formal = symbol name → ¬ parameters.Names name := by
  have formalWalk : ∃ seen names, formal.parametersAfter [] = .ok seen ∧
      parameters.parametersAfter seen = .ok names := by
    unfold checkClosure at checked
    split at checked
    case h_3 => cases checked
    all_goals
      obtain ⟨seen, first, checked⟩ := Except.bind_eq_ok.mp checked
      obtain ⟨names, walked, _⟩ := Except.bind_eq_ok.mp checked
      exact ⟨seen, names, first, walked⟩
  obtain ⟨seen, names, first, walked⟩ := formalWalk
  obtain ⟨tree, once, new⟩ := parametersAfter_eq_ok.mp ⟨names, walked⟩
  refine ⟨checkParameters_eq_ok.mpr ⟨tree, once⟩, ?_⟩
  rintro name rfl named
  exact new name named ((mem_parametersAfter first name).mpr (.inr ⟨[], rfl⟩))

/-! Where operands fit. -/

theorem fits_of_atom (atom : f.isPair = false) : f.Fits got ↔ (f = nil → got = nil) := by
  constructor
  · intro fits same
    exact Option.some.inj ((fits []).2 (congrArg some same))
  · refine fun same p => ⟨?_, fun there => ?_⟩
    · rintro ⟨id, car, cdr, there⟩
      obtain ⟨_, rfl⟩ := at?_of_atom atom there
      cases atom
    · obtain ⟨rfl, rfl⟩ := at?_of_atom atom there
      exact congrArg some (same rfl)

theorem fits_pair : (pair id car cdr).Fits (pair id' first rest) ↔
    car.Fits first ∧ cdr.Fits rest := by
  constructor
  · intro fits
    exact ⟨fun p => fits (.car :: p), fun p => fits (.cdr :: p)⟩
  · rintro ⟨left, right⟩ p
    match p with
    | [] => exact ⟨fun _ => ⟨_, _, _, rfl⟩, nofun⟩
    | .car :: p => exact left p
    | .cdr :: p => exact right p

theorem Fits.not_unlike (fits : f.Fits rest) (asked : f.at? p = some expected)
    (given : rest.at? p = some got) : ¬ expected.Unlike got := by
  rintro (atom | other)
  · obtain ⟨id, first, rest, found⟩ := (fits p).1 ⟨_, _, _, asked⟩
    cases given.symm.trans found
    cases atom
  · exact other (Option.some.inj (given.symm.trans ((fits p).2 asked)))

theorem Differ.here (unlike : expected.Unlike got) : expected.Differ got [] expected got where
  asked := rfl
  given := rfl
  unlike := unlike
  first q _ _ asked given _ := by
    cases unlike with
    | pair atom => exact .inl (at?_of_atom atom given).1
    | nil => exact .inl (at?_of_atom rfl asked).1

theorem Differ.left (differ : car.Differ first p expected got) :
    (pair id car cdr).Differ (pair id' first rest) (.car :: p) expected got where
  asked := differ.asked
  given := differ.given
  unlike := differ.unlike
  first q _ _ asked given unlike := by
    match q, asked, given with
    | [], rfl, rfl => cases unlike with | pair atom => cases atom
    | .car :: q, asked, given =>
      exact (differ.first q _ _ asked given unlike).imp (congrArg _) .within
    | .cdr :: q, asked, given => exact .inr .apart

theorem Differ.right (fits : car.Fits first) (differ : cdr.Differ rest p expected got) :
    (pair id car cdr).Differ (pair id' first rest) (.cdr :: p) expected got where
  asked := differ.asked
  given := differ.given
  unlike := differ.unlike
  first q expected got asked given unlike := by
    match q, asked, given with
    | [], rfl, rfl => cases unlike with | pair atom => cases atom
    | .car :: q, asked, given => exact (fits.not_unlike asked given unlike).elim
    | .cdr :: q, asked, given =>
      exact (differ.first q _ _ asked given unlike).imp (congrArg _) .within

end Form

/-! What matching does to scopes. -/

namespace Scopes

/-- The symbols at the positions reached are bound in the scope to what the operands have there, and
nothing else is changed. -/
structure Bound (scopes later : Scopes) (e : ScopeId) (parameters operands : Form)
    (reached : List Side → Prop) : Prop where
  size : later.size = scopes.size
  parent : later.parent? e = scopes.parent? e
  elsewhere : ∀ d, d ≠ e → later[d]? = scopes[d]?
  symbols : ∀ p name, reached p → parameters.at? p = some (.symbol name) →
    ∃ value, operands.at? p = some value ∧ (later.bindings e).get? name = some value
  others : ∀ name, (∀ p, reached p → parameters.at? p ≠ some (.symbol name)) →
    (later.bindings e).get? name = (scopes.bindings e).get? name

variable {scopes middle later : Scopes} {e : ScopeId} {parameters operands car cdr first rest : Form}
  {id id' : Identity} {reached : List Side → Prop}

theorem Bound.congr {reached' : List Side → Prop}
    (bound : scopes.Bound later e parameters operands reached)
    (same : ∀ p, reached' p ↔ reached p) : scopes.Bound later e parameters operands reached' := by
  obtain rfl : reached' = reached := funext fun p => propext (same p)
  exact bound

theorem Bound.none (unreached : ∀ p name, reached p → parameters.at? p ≠ some (.symbol name)) :
    scopes.Bound scopes e parameters operands reached where
  size := rfl
  parent := rfl
  elsewhere _ _ := rfl
  symbols p name here named := (unreached p name here named).elim
  others _ _ := rfl

theorem Bound.define (there : e < scopes.size) (name : String) (operand : Form) :
    scopes.Bound (scopes.define e name operand) e (.symbol name) operand fun _ => True where
  size := size_define scopes e name operand
  parent := parent?_define scopes e e name operand
  elsewhere d other := by
    unfold Scopes.define
    rw [Array.getElem?_modify, if_neg other.symm]
  symbols p bound _ named := by
    obtain ⟨rfl, same⟩ := Form.at?_of_atom rfl named
    cases same
    exact ⟨operand, rfl, (get?_bindings_define there e name name operand).trans (if_pos ⟨rfl, rfl⟩)⟩
  others bound unnamed := by
    rw [get?_bindings_define there, if_neg]
    rintro ⟨_, rfl⟩
    exact unnamed [] trivial rfl

theorem Bound.pair (apart : ∀ name, car.Names name → ¬ cdr.Names name)
    (left : scopes.Bound middle e car first fun p => reached (.car :: p))
    (right : middle.Bound later e cdr rest fun p => reached (.cdr :: p)) :
    scopes.Bound later e (.pair id car cdr) (.pair id' first rest) reached where
  size := right.size.trans left.size
  parent := right.parent.trans left.parent
  elsewhere d other := (right.elsewhere d other).trans (left.elsewhere d other)
  symbols p name here named := by
    match p, named with
    | .car :: p, named =>
      obtain ⟨value, given, bound⟩ := left.symbols p name here named
      have kept := right.others name fun q _ again => apart name ⟨p, named⟩ ⟨q, again⟩
      exact ⟨value, given, kept.trans bound⟩
    | .cdr :: p, named => exact right.symbols p name here named
  others name unnamed :=
    (right.others name fun p => unnamed (.cdr :: p)).trans
      (left.others name fun p => unnamed (.car :: p))

theorem bind_outcome : ∀ {parameters : Form}, parameters.IsParameters → parameters.Distinct →
    ∀ {scopes : Scopes} {e : ScopeId}, e < scopes.size → ∀ operands : Form,
      (∃ later, scopes.bind e parameters operands = (.ok (), later) ∧ parameters.Fits operands ∧
        scopes.Bound later e parameters operands fun _ => True) ∨
      ∃ later p expected got, scopes.bind e parameters operands =
          (.error (.of (.mismatch expected.text got.text)), later) ∧
        parameters.Differ operands p expected got ∧
        scopes.Bound later e parameters operands (Before · p)
  | .symbol name, _, _, _, _, there, operands =>
    .inl ⟨_, rfl, (Form.fits_of_atom rfl).mpr (by simp), .define there name operands⟩
  | .ignore, _, _, _, _, _, _ => by
    refine .inl ⟨_, rfl, (Form.fits_of_atom rfl).mpr (by simp), .none fun p name _ named => ?_⟩
    cases (Form.at?_of_atom rfl named).2
  | .nil, _, _, scopes, _, _, operands => by
    have unnamed (reached : List Side → Prop) (p : List Side) (name : String) (_ : reached p) :
        Form.nil.at? p ≠ some (.symbol name) := fun named =>
      nomatch (Form.at?_of_atom rfl named).2
    cases operands with
    | nil => exact .inl ⟨_, rfl, (Form.fits_of_atom rfl).mpr fun _ => rfl, .none (unnamed _)⟩
    | _ => exact .inr ⟨_, [], _, _, rfl, .here (.nil (by simp)), .none (unnamed _)⟩
  | .pair _ car cdr, ⟨carTree, cdrTree⟩, once, scopes, e, there, operands => by
    obtain ⟨carOnce, cdrOnce, apart⟩ := Form.distinct_pair.mp once
    cases operands with
    | pair _ first rest =>
      simp only [bind]
      rcases bind_outcome carTree carOnce there first with
        ⟨middle, bound, carFits, left⟩ | ⟨middle, p, expected, got, bound, differ, left⟩
      · simp only [bound]
        rcases bind_outcome cdrTree cdrOnce (Nat.lt_of_lt_of_eq there left.size.symm) rest with
          ⟨later, bound, cdrFits, right⟩ | ⟨later, p, expected, got, bound, differ, right⟩
        · exact .inl ⟨later, bound, Form.fits_pair.mpr ⟨carFits, cdrFits⟩, left.pair apart right⟩
        · refine .inr ⟨later, .cdr :: p, expected, got, bound, differ.right carFits, ?_⟩
          exact .pair apart (left.congr fun _ => iff_of_true .apart trivial)
            (right.congr fun _ => before_iff_of_same)
      · simp only [bound]
        refine .inr ⟨middle, .car :: p, expected, got, rfl, differ.left, ?_⟩
        -- Nothing of the right part comes before a position in the left.
        exact .pair apart (left.congr fun _ => before_iff_of_same)
          (.none fun _ _ met => met.not_back.elim)
    | _ =>
      exact .inr ⟨_, [], _, _, rfl, .here (.pair rfl), .none fun _ _ met => met.not_nil.elim⟩

end Scopes

namespace Scopes

variable {scopes later : Scopes} {static caller : ScopeId} {parameters operands : Form}

theorem getElem?_extend (parent : Option ScopeId) {d : ScopeId} (older : d < scopes.size) :
    (scopes.extend parent).2[d]? = scopes[d]? := by
  unfold extend
  rw [Array.getElem?_push, if_neg (Nat.ne_of_lt older)]

/-- A new child of a scope, which binds what a closure asks for and nothing else. -/
structure Entered (scopes later : Scopes) (static caller : ScopeId)
    (parameters formal operands : Form) : Prop where
  size : later.size = scopes.size + 1
  parent : later.parent? scopes.size = some static
  older : ∀ d : Nat, d < scopes.size → later[d]? = scopes[d]?
  symbols : ∀ p name, parameters.at? p = some (.symbol name) →
    ∃ value, operands.at? p = some value ∧
      (later.bindings scopes.size).get? name = some value
  caller : ∀ name, formal = .symbol name →
    (later.bindings scopes.size).get? name = some (.environment caller)
  others : ∀ name, ¬ parameters.Names name → formal ≠ .symbol name →
    (later.bindings scopes.size).get? name = none

theorem Bound.entered (bound : (scopes.extend (some static)).2.Bound later scopes.size parameters
    operands fun _ => True) {formal : Form} (unnamed : ∀ name, formal ≠ .symbol name) :
    scopes.Entered later static caller parameters formal operands where
  size := bound.size.trans (size_extend scopes _)
  parent := bound.parent.trans ((parent?_extend scopes _ _).trans (if_pos rfl))
  older d older := (bound.elsewhere d (Nat.ne_of_lt older)).trans (getElem?_extend _ older)
  symbols p name named := bound.symbols p name trivial named
  caller name named := (unnamed name named).elim
  others name absent _ := by
    rw [bound.others name fun p _ named => absent ⟨p, named⟩, bindings_extend, bindings,
      Array.getElem?_eq_none (Nat.le_refl _)]
    rfl

theorem Entered.define {name : String}
    (entered : scopes.Entered later static caller parameters .ignore operands)
    (apart : ¬ parameters.Names name) :
    scopes.Entered (later.define scopes.size name (.environment caller)) static caller parameters
      (.symbol name) operands := by
  have there : scopes.size < later.size := Nat.lt_of_lt_of_eq (Nat.lt_succ_self _) entered.size.symm
  have bound (other : String) :=
    get?_bindings_define there scopes.size name other (.environment caller)
  refine ⟨(size_define ..).trans entered.size, (parent?_define ..).trans entered.parent,
    fun d older => ?_, fun p other named => ?_, fun other same => ?_, fun other absent formal => ?_⟩
  · rw [Scopes.define, Array.getElem?_modify, if_neg (Nat.ne_of_gt older)]
    exact entered.older d older
  · obtain ⟨value, given, found⟩ := entered.symbols p other named
    refine ⟨value, given, (bound other).trans ((if_neg ?_).trans found)⟩
    rintro ⟨_, rfl⟩
    exact apart ⟨p, named⟩
  · cases same
    exact (bound name).trans (if_pos ⟨rfl, rfl⟩)
  · refine (bound other).trans ((if_neg ?_).trans (entered.others other absent nofun))
    rintro ⟨_, rfl⟩
    exact formal rfl

end Scopes

namespace Evaluation

theorem enter_outcome (e : Evaluation) (static : ScopeId) {t : Template}
    (checked : t.formal.checkClosure t.parameters = .ok ()) (operands : Form) :
    (∃ later, e.enter static t operands = .running { e with
          store.scopes := later, scope := e.store.scopes.size, code := t.body } ∧
        t.parameters.Fits operands ∧
        e.store.scopes.Entered later static e.scope t.parameters t.formal operands) ∨
      ∃ later p expected got, e.enter static t operands =
          .failed (.of (.mismatch expected.text got.text))
            { e.toMachine with store.scopes := later } ∧
        t.parameters.Differ operands p expected got ∧
        ∀ d : Nat, d < e.store.scopes.size → later[d]? = e.store.scopes[d]? := by
  obtain ⟨checked, apart⟩ := Form.parameters_of_closure checked
  obtain ⟨tree, once⟩ := Form.checkParameters_eq_ok.mp checked
  have there : e.store.scopes.size < (e.store.scopes.extend (some static)).2.size :=
    Nat.lt_of_lt_of_eq (Nat.lt_succ_self _) (Scopes.size_extend _ _).symm
  have number : (e.store.scopes.extend (some static)).1 = e.store.scopes.size := rfl
  unfold enter
  dsimp only
  rw [number]
  rcases Scopes.bind_outcome tree once there operands with
    ⟨later, matched, fits, bound⟩ | ⟨later, p, expected, got, matched, differ, bound⟩
  -- The parameter for the caller is not among the others, so it hides none of them.
  · left
    rw [matched]
    cases formal : t.formal with
    | symbol name =>
      have entered : e.store.scopes.Entered later static e.scope t.parameters .ignore operands :=
        bound.entered nofun
      exact ⟨_, rfl, fits, entered.define (apart name formal)⟩
    | _ => exact ⟨_, rfl, fits, bound.entered nofun⟩
  · right
    rw [matched]
    refine ⟨later, p, expected, got, rfl, differ, fun d older => ?_⟩
    exact (bound.elsewhere d (Nat.ne_of_lt older)).trans (Scopes.getElem?_extend _ older)

theorem Reachable.closure_checked {e : Evaluation} (reachable : e.Reachable) {id : Identity}
    {static : ScopeId} {t : Template} (held : e.acc = .combiner (.operative id static t)) :
    t.formal.checkClosure t.parameters = .ok () := by
  have acc := reachable.sourced.acc
  rw [held] at acc
  exact acc.2.2.holds.1

end Evaluation

/-- What is a parameter tree, what it binds in a scope, and what a closure binds in its own. -/
theorem Form.parameter_trees (t : Form) :
    (t.checkParameters = .ok () ↔
      (∀ p leaf, t.at? p = some leaf → leaf.isPair = false →
        leaf = nil ∨ leaf = ignore ∨ ∃ name, leaf = symbol name) ∧
      ∀ p q name, t.at? p = some (symbol name) → t.at? q = some (symbol name) → p = q) ∧
    (t.checkParameters = .ok () → ∀ (scopes : Scopes) (e : ScopeId) (operands : Form),
      e < scopes.size →
        ((∃ later, scopes.bind e t operands = (.ok (), later)) ↔ t.Fits operands) ∧
        (∀ later, scopes.bind e t operands = (.ok (), later) →
          scopes.Bound later e t operands fun _ => True) ∧
        ∀ error later, scopes.bind e t operands = (.error error, later) →
          ∃ p expected got, error = .of (.mismatch expected.text got.text) ∧
            t.Differ operands p expected got ∧ scopes.Bound later e t operands (Before · p)) ∧
    (∀ (e : Evaluation) (id : Identity) (static : ScopeId) (closure : Template), e.Reachable →
      e.acc = .combiner (.operative id static closure) →
      closure.formal.checkClosure closure.parameters = .ok ()) ∧
    ∀ (e : Evaluation) (static : ScopeId) (closure : Template) (operands : Form),
      closure.formal.checkClosure closure.parameters = .ok () →
        (∀ next, e.enter static closure operands = .running next →
          next.scope = e.store.scopes.size ∧ next.code = closure.body ∧
          e.store.scopes.Entered next.store.scopes static e.scope closure.parameters
            closure.formal operands) ∧
        ∀ error m, e.enter static closure operands = .failed error m →
          ∀ d : Nat, d < e.store.scopes.size → m.store.scopes[d]? = e.store.scopes[d]? := by
  refine ⟨checkParameters_eq_ok.trans (and_congr_left' isParameters_iff), ?_,
    fun e id static closure reachable held => reachable.closure_checked held, ?_⟩
  · intro checked scopes e operands there
    obtain ⟨tree, once⟩ := checkParameters_eq_ok.mp checked
    rcases Scopes.bind_outcome tree once there operands with
      ⟨later, matched, fits, bound⟩ | ⟨later, p, expected, got, matched, differ, bound⟩
    · rw [matched]
      refine ⟨⟨fun _ => fits, fun _ => ⟨later, rfl⟩⟩, fun _ same => ?_, fun _ _ same => ?_⟩
      · cases same
        exact bound
      · cases congrArg Prod.fst same
    · rw [matched]
      refine ⟨⟨fun ⟨_, same⟩ => ?_, fun fits => ?_⟩, fun _ same => ?_, fun _ _ same => ?_⟩
      · cases congrArg Prod.fst same
      · exact (fits.not_unlike differ.asked differ.given differ.unlike).elim
      · cases congrArg Prod.fst same
      · cases same
        exact ⟨p, expected, got, rfl, differ, bound⟩
  · intro e static closure operands checked
    rcases e.enter_outcome static checked operands with
      ⟨later, entered, _, bound⟩ | ⟨later, p, expected, got, entered, _, kept⟩
    · rw [entered]
      refine ⟨fun _ same => ?_, fun _ _ same => ?_⟩
      · cases same
        exact ⟨rfl, rfl, bound⟩
      · cases same
    · rw [entered]
      refine ⟨fun _ same => ?_, fun _ _ same => ?_⟩
      · cases same
      · cases same
        exact kept

/-- Of two parameters with one operand, the first is bound. -/
theorem Form.parameter_trees_of_missing : ∃ error later,
    Scopes.bind #[{}] 0 (.pair 0 (.symbol "x") (.pair 1 (.symbol "y") .nil))
      (.pair 2 (.int 1) .nil) = (.error error, later) ∧
    (later.bindings 0).get? "x" = some (.int 1) ∧ (later.bindings 0).get? "y" = none := by
  obtain ⟨-, binds, -⟩ :=
    Form.parameter_trees (.pair 0 (.symbol "x") (.pair 1 (.symbol "y") .nil))
  obtain ⟨-, -, failed⟩ := binds rfl #[{}] 0 (.pair 2 (.int 1) .nil) (by decide)
  refine ⟨_, _, rfl, ?_⟩
  obtain ⟨p, expected, got, -, differ, bound⟩ := failed _ _ rfl
  have left (q : List Side) {f : Form} (there : (Form.symbol "x").at? q = some f) :
      f = .symbol "x" := (Form.at?_of_atom rfl there).2.symm
  obtain rfl | before := differ.first [.cdr] _ _ rfl rfl (.pair rfl)
  · obtain ⟨value, given, found⟩ := bound.symbols [.car] "x" .apart rfl
    cases given
    refine ⟨found, bound.others "y" fun q before named => ?_⟩
    cases before with
    | apart => simpa using left _ named
    | within before => cases before
  · cases before with
    | apart =>
      cases left _ differ.asked
      cases differ.unlike
    | within before => cases before

end Vau

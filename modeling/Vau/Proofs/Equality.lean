import Mathlib.Data.List.Chain
import Mathlib.Data.List.Pairwise
import Vau.Proofs.Number
import Vau.Proofs.Real

/-! What it is to be equal.

A pair that meets itself is equal at once, whatever is in it. That is no different from comparing
part by part, as long as one number stands for one pair and every real equals itself. -/

set_option autoImplicit false

namespace Vau

/-! What identity looks at. -/

inductive Combiner.Mark where
  | operative (id : Identity)
  | applicative (id : Identity)
  | native (value : Primitive ⊕ Nat)
  | continuation (top : Option Identity)
  | eval

inductive Form.Mark where
  | nil
  | symbol (name : String)
  | bool (value : Bool)
  | ignore
  | inert
  | pair (id : Identity)
  | combiner (value : Combiner.Mark)
  | environment (scope : ScopeId)

def Native.mark : Native → Primitive ⊕ Nat
  | primitive p => .inl p
  | host index _ => .inr index

def Stack.mark : Stack → Option Identity
  | empty => none
  | push top _ => some top.id

def Combiner.mark : Combiner → Mark
  | operative id .. => .operative id
  | applicative id _ => .applicative id
  | native n => .native n.mark
  | continuation stack => .continuation stack.mark
  | eval => .eval

def Form.mark? : Form → Option Mark
  | nil => some .nil
  | symbol name => some (.symbol name)
  | bool value => some (.bool value)
  | ignore => some .ignore
  | inert => some .inert
  | pair id .. => some (.pair id)
  | combiner c => some (.combiner c.mark)
  | environment e => some (.environment e)
  | int _ | real _ => none

theorem Native.same_iff {m n : Native} : m.same n ↔ m.mark = n.mark := by
  cases m <;> cases n <;> simp [same, mark]

theorem Stack.same_iff {s t : Stack} : s.same t ↔ s.mark = t.mark := by
  cases s <;> cases t <;> simp [same, mark]

theorem Combiner.same_iff {c d : Combiner} : c.same d ↔ c.mark = d.mark := by
  cases c <;> cases d <;> simp [same, mark, Native.same_iff, Stack.same_iff]

theorem Form.isSame_iff_mark {f g : Form} (marked : f.mark? ≠ none) :
    f.isSame g ↔ f.mark? = g.mark? := by
  cases f <;> cases g
  case int.int | int.real | real.int | real.real => exact (marked rfl).elim
  all_goals simp [isSame, mark?, Combiner.same_iff]

/-! The forms that are compared. -/

namespace Form

@[elab_as_elim]
theorem pairInduction {motive : Form → Prop}
    (pair : ∀ id car cdr, motive car → motive cdr → motive (pair id car cdr))
    (atom : ∀ f, f.car? = none → motive f) : ∀ f, motive f
  | .pair id car cdr => pair id car cdr (pairInduction pair atom car)
    (pairInduction pair atom cdr)
  | .nil => atom .nil rfl
  | .symbol name => atom (.symbol name) rfl
  | .int n => atom (.int n) rfl
  | .real x => atom (.real x) rfl
  | .bool b => atom (.bool b) rfl
  | .ignore => atom .ignore rfl
  | .inert => atom .inert rfl
  | .combiner c => atom (.combiner c) rfl
  | .environment e => atom (.environment e) rfl

/-- Each pair is the one that the heap has under its number. -/
def LiesIn (heap : Identity → Form × Form) : Form → Prop
  | pair id car cdr => heap id = (car, cdr) ∧ car.LiesIn heap ∧ cdr.LiesIn heap
  | _ => True

def WithoutNaN : Form → Prop
  | pair _ car cdr => car.WithoutNaN ∧ cdr.WithoutNaN
  | real x => x == x
  | _ => True

/-- No integer is past the limit up to which each has a real of its own. -/
def Exact : Form → Prop
  | pair _ car cdr => car.Exact ∧ cdr.Exact
  | int n => n.toInt.natAbs ≤ 2 ^ 53
  | _ => True

inductive Clash : Form → Form → Prop
  | int {m n : Int64} : m ≠ n → Clash (int m) (int n)
  | car {i j : Identity} {a a' d d' : Form} : Clash a a' → Clash (pair i a d) (pair j a' d')
  | cdr {i j : Identity} {a a' d d' : Form} : Clash d d' → Clash (pair i a d) (pair j a' d')

/-- Equality that never looks at the number of a pair. -/
def isAlike : Form → Form → Bool
  | pair _ a d, pair _ a' d' => a.isAlike a' && d.isAlike d'
  | f, g => f.isSame g

end Form

/-! Numbers. -/

namespace Number

variable {a b c : Number}

def Meets : Number → Number → Prop
  | int m, int n => m = n
  | a, b => a.toReal == b.toReal

def Near (a b : Number) : Prop := a = b ∨ a.toReal == b.toReal

theorem Near.symm (near : a.Near b) : b.Near a := near.imp Eq.symm BEq.symm

theorem Near.trans (first : a.Near b) (rest : b.Near c) : a.Near c := by
  obtain rfl | first := first
  · exact rest
  · obtain rfl | rest := rest
    · exact .inr first
    · exact .inr (BEq.trans first rest)

theorem Meets.near (meets : a.Meets b) : a.Near b := by
  cases a <;> cases b
  case int.int => exact .inl (congrArg int meets)
  all_goals exact .inr meets

theorem Meets.symm (meets : a.Meets b) : b.Meets a := by
  cases a <;> cases b
  case int.int => exact Eq.symm meets
  all_goals exact BEq.symm meets

theorem Near.meets_iff (near : a.Near b) (number : a.form.WithoutNaN) :
    a.Meets b ↔ ¬ a.form.Clash b.form := by
  cases a with
  | int m =>
    cases b with
    | int n =>
      refine ⟨?_, fun apart => by_contra fun other => apart (.int other)⟩
      rintro rfl ⟨other⟩
      exact other rfl
    | real y => exact iff_of_true (near.resolve_left nofun) nofun
  | real x =>
    refine iff_of_true ?_ nofun
    obtain rfl | near := near
    · exact number
    · cases b <;> exact near

theorem Near.not_clash (near : a.Near b) (first : a.form.Exact) (second : b.form.Exact) :
    ¬ a.form.Clash b.form := by
  intro clash
  cases a with
  | real x => cases clash
  | int m =>
    cases b with
    | real y => cases clash
    | int n =>
      obtain ⟨other⟩ := clash
      obtain same | near := near
      · exact other (int.inj same)
      · exact other (Form.nearest_injective first second near)

end Number

namespace Form

variable {f g h : Form}

theorem exists_number_iff : f.mark? = none ↔ ∃ a : Number, f = a.form := by
  constructor
  · intro unmarked
    cases f with
    | int n => exact ⟨.int n, rfl⟩
    | real x => exact ⟨.real x, rfl⟩
    | _ => cases unmarked
  · rintro ⟨a, rfl⟩
    cases a <;> rfl

theorem isSame_numbers {a b : Number} : a.form.isSame b.form ↔ a.Meets b := by
  cases a <;> cases b
  case int.int => exact beq_iff_eq
  case real.int => exact ⟨BEq.symm, BEq.symm⟩
  all_goals exact Iff.rfl

theorem mark?_of_isSame {a : Number} (same : a.form.isSame g) : g.mark? = none := by
  cases a <;> cases g <;> first | rfl | cases same

theorem isSame_iff : f.isSame g ↔ (f.mark? ≠ none ∧ f.mark? = g.mark?) ∨
    ∃ a b : Number, f = a.form ∧ g = b.form ∧ a.Meets b := by
  by_cases marked : f.mark? = none
  · obtain ⟨a, rfl⟩ := exists_number_iff.mp marked
    constructor
    · intro same
      obtain ⟨b, rfl⟩ := exists_number_iff.mp (mark?_of_isSame same)
      exact .inr ⟨a, b, rfl, rfl, isSame_numbers.mp same⟩
    · rintro (⟨other, _⟩ | ⟨a', b, same, rfl, meets⟩)
      · exact (other marked).elim
      · exact same ▸ isSame_numbers.mpr meets
  · rw [isSame_iff_mark marked]
    refine ⟨fun same => .inl ⟨marked, same⟩, ?_⟩
    rintro (⟨_, same⟩ | ⟨a, b, rfl, _⟩)
    · exact same
    · exact (marked (exists_number_iff.mpr ⟨a, rfl⟩)).elim

theorem isSame_symm (same : f.isSame g) : g.isSame f := by
  rw [isSame_iff] at same ⊢
  obtain ⟨marked, same⟩ | ⟨a, b, first, second, meets⟩ := same
  · exact .inl ⟨same ▸ marked, same.symm⟩
  · exact .inr ⟨b, a, second, first, meets.symm⟩

theorem isSame_self (number : f.WithoutNaN) : f.isSame f := by
  rw [isSame_iff]
  by_cases marked : f.mark? = none
  · obtain ⟨a, rfl⟩ := exists_number_iff.mp marked
    refine .inr ⟨a, a, rfl, rfl, ?_⟩
    cases a with
    | int n => rfl
    | real x => exact number
  · exact .inl ⟨marked, rfl⟩

theorem not_clash_of_mark (marked : f.mark? ≠ none) (atom : f.car? = none) : ¬ f.Clash g := by
  rintro (_ | _ | _)
  · exact marked rfl
  all_goals cases atom

theorem isSame_chain (atom : f.car? = none) (number : f.WithoutNaN) (first : f.isSame g)
    (rest : g.isSame h) :
    (f.isSame h ↔ ¬ f.Clash h) ∧ (f.Exact → h.Exact → ¬ f.Clash h) := by
  obtain ⟨marked, same⟩ | ⟨a, b, rfl, rfl, meets⟩ := isSame_iff.mp first
  · have same' := same.trans ((isSame_iff_mark (same ▸ marked)).mp rest)
    have apart := not_clash_of_mark (g := h) marked atom
    exact ⟨iff_of_true ((isSame_iff_mark marked).mpr same') apart, fun _ _ => apart⟩
  · -- Meeting is no equivalence, but being near is.
    obtain ⟨c, rfl⟩ := exists_number_iff.mp (mark?_of_isSame rest)
    have near := meets.near.trans (isSame_numbers.mp rest).near
    exact ⟨isSame_numbers.trans (near.meets_iff number), near.not_clash⟩

/-! Structure. -/

theorem isAlike_of_atom (atom : f.car? = none) (g : Form) : f.isAlike g = f.isSame g := by
  cases f with
  | pair => cases atom
  | _ => cases g <;> rfl

theorem atom_of_isSame (atom : f.car? = none) (same : f.isSame g) : g.car? = none := by
  cases g with
  | pair => cases f <;> (first | cases same | cases atom)
  | _ => rfl

theorem isAlike_pair {id : Identity} {a d : Form} : (pair id a d).isAlike g ↔
    ∃ id' a' d', g = pair id' a' d' ∧ a.isAlike a' ∧ d.isAlike d' := by
  cases g with
  | pair => simp [isAlike]
  | _ => simp [isAlike, isSame]

theorem clash_pair {id id' : Identity} {a a' d d' : Form} :
    (pair id a d).Clash (pair id' a' d') ↔ a.Clash a' ∨ d.Clash d' := by
  constructor
  · rintro (_ | here | there)
    · exact .inl here
    · exact .inr there
  · exact fun clash => clash.elim .car .cdr

theorem isAlike_self (number : f.WithoutNaN) : f.isAlike f := by
  induction f using pairInduction with
  | pair id a d carIH cdrIH =>
    exact isAlike_pair.mpr ⟨id, a, d, rfl, carIH number.1, cdrIH number.2⟩
  | atom f atom =>
    rw [isAlike_of_atom atom]
    exact isSame_self number

theorem isAlike_symm (alike : f.isAlike g) : g.isAlike f := by
  induction f using pairInduction generalizing g with
  | pair id a d carIH cdrIH =>
    obtain ⟨id', a', d', rfl, here, there⟩ := isAlike_pair.mp alike
    exact isAlike_pair.mpr ⟨id, a, d, rfl, carIH here, cdrIH there⟩
  | atom f atom =>
    rw [isAlike_of_atom atom] at alike
    rw [isAlike_of_atom (atom_of_isSame atom alike)]
    exact isSame_symm alike

theorem isAlike_chain (number : f.WithoutNaN) (first : f.isAlike g) (rest : g.isAlike h) :
    (f.isAlike h ↔ ¬ f.Clash h) ∧ (f.Exact → h.Exact → ¬ f.Clash h) := by
  induction f using pairInduction generalizing g h with
  | pair id a d carIH cdrIH =>
    obtain ⟨_, a', d', rfl, here, there⟩ := isAlike_pair.mp first
    obtain ⟨_, a'', d'', rfl, here', there'⟩ := isAlike_pair.mp rest
    obtain ⟨left, leftExact⟩ := carIH number.1 here here'
    obtain ⟨right, rightExact⟩ := cdrIH number.2 there there'
    rw [clash_pair, not_or, ← left, ← right]
    refine ⟨by simp [isAlike], fun f h => ⟨?_, ?_⟩⟩
    · exact left.mpr (leftExact f.1 h.1)
    · exact right.mpr (rightExact f.2 h.2)
  | atom f atom =>
    rw [isAlike_of_atom atom] at first ⊢
    rw [isAlike_of_atom (atom_of_isSame atom first)] at rest
    exact isSame_chain atom number first rest

/-- One number stands for one pair, so the pair that meets itself is alike to itself. -/
theorem isEqual_eq_isAlike {heap : Identity → Form × Form} (left : f.LiesIn heap)
    (right : g.LiesIn heap) (number : f.WithoutNaN) : f.isEqual g = f.isAlike g := by
  induction f using pairInduction generalizing g with
  | pair id a d carIH cdrIH =>
    cases g with
    | pair id' a' d' =>
      have here := carIH left.2.1 right.2.1 number.1
      have there := cdrIH left.2.2 right.2.2 number.2
      rw [isEqual, isAlike, here, there]
      by_cases same : id = id'
      · -- The parts were not looked at, but they are the same parts.
        subst same
        cases left.1.symm.trans right.1
        simp [isAlike_self number.1, isAlike_self number.2]
      · simp [same]
    | _ => rfl
  | atom f atom =>
    rw [isAlike_of_atom atom]
    cases f with
    | pair => cases atom
    | _ => cases g <;> rfl

theorem isEqual_of_isSame (same : f.isSame g) : f.isEqual g := by
  cases f with
  | pair id a d =>
    cases g with
    | pair id' a' d' =>
      have same : (id == id') = true := same
      simp [isEqual, same]
    | _ => cases same
  | _ => cases g <;> exact same

/-- On forms of one heap without NaN, equality is the comparison of structure. It holds of what is
the same, and does not depend on the order. -/
theorem equality_structural {heap : Identity → Form × Form} {u v : Form} (left : u.LiesIn heap)
    (right : v.LiesIn heap) (numbers : u.WithoutNaN) (numbers' : v.WithoutNaN) :
    u.isEqual v = u.isAlike v ∧ (u.isSame v → u.isEqual v) ∧ u.isEqual u ∧
      u.isEqual v = v.isEqual u := by
  have alike := isEqual_eq_isAlike left right numbers
  have reversed := isEqual_eq_isAlike right left numbers'
  have itself := isEqual_eq_isAlike left left numbers
  refine ⟨alike, isEqual_of_isSame, itself ▸ isAlike_self numbers, ?_⟩
  rw [alike, reversed]
  exact Bool.eq_iff_iff.mpr ⟨isAlike_symm, isAlike_symm⟩

/-- A pair that is shared, and a copy of it. -/
theorem equality_structural_of_copy :
    let shared : Form := .pair 0 (.real 2) .nil
    let copy : Form := .pair 1 (.real 2) .nil
    (pair 2 shared shared).isEqual (pair 3 shared copy) = true ∧
      (pair 3 shared copy).isEqual (pair 2 shared shared) = true := by
  intro shared copy
  let heap : Identity → Form × Form
    | 2 => (shared, shared)
    | 3 => (shared, copy)
    | _ => (.real 2, .nil)
  have number : ((2 : Float) == 2) = true := by decide +kernel
  have left : (pair 2 shared shared).LiesIn heap := by simp [LiesIn, heap, shared]
  have right : (pair 3 shared copy).LiesIn heap := by simp [LiesIn, heap, shared, copy]
  have leftNumbers : (pair 2 shared shared).WithoutNaN := by simp [WithoutNaN, shared, number]
  have rightNumbers : (pair 3 shared copy).WithoutNaN := by
    simp [WithoutNaN, shared, copy, number]
  obtain ⟨alike, -, -, reversed⟩ := equality_structural left right leftNumbers rightNumbers
  have equal : (pair 2 shared shared).isEqual (pair 3 shared copy) = true := by
    rw [alike]
    decide +kernel
  exact ⟨equal, reversed ▸ equal⟩

end Form

/-! Numbers that are equal to their neighbours. -/

namespace Number

theorem reals_equal_iff {x y : Float} : (if x < y then some .lt else if x == y then some .eq
    else if y < x then some .gt else none : Option Ordering).any Ordering.isEq ↔ x == y := by
  by_cases equal : x == y
  · simp [equal, Real.not_lt_of_beq equal]
  · rw [if_neg equal]
    refine iff_of_false ?_ equal
    split
    · simp
    · split <;> simp

theorem compares_iff {a b : Number} : (compare? a b).any Ordering.isEq ↔ a.Meets b := by
  cases a with
  | int m =>
    cases b with
    | int n => simp [compare?, Meets, Int64.toInt_inj]
    | real y => exact reals_equal_iff
  | real x => cases b <;> exact reals_equal_iff

theorem ordered_iff : ∀ {ns : List Number}, ordered Ordering.isEq ns ↔ ns.IsChain Meets
  | [] => iff_of_true rfl .nil
  | [_] => iff_of_true rfl (.singleton _)
  | a :: b :: rest => by
    rw [ordered, Bool.and_eq_true, compares_iff, ordered_iff, List.isChain_cons_cons]

end Number

def Machine.Equates (m : Machine) (args : List Form) : Prop :=
  (m.callNative (.primitive .numberEqual) args).1 = .ok (.bool true)

theorem Machine.equates_iff {m : Machine} {args : List Form} :
    m.Equates args ↔ ∃ ns : List Number, ns.map Number.form = args ∧ ns.IsChain Number.Meets := by
  unfold Equates
  cases read : Number.ofForms (·.textDuring (.primitive .numberEqual)) 1 args with
  | ok ns =>
    have called : Primitive.numberEqual.call args =
        pure (.bool (Number.ordered Ordering.isEq ns)) := by
      unfold Primitive.call Primitive.compare Primitive.numbers
      rw [read]
      rfl
    rw [callNative_of_pure called]
    constructor
    · intro same
      have ordered : Number.ordered Ordering.isEq ns = true := by simpa using same
      exact ⟨ns, Number.ofForms_eq_ok.mp read, Number.ordered_iff.mp ordered⟩
    · rintro ⟨ns', same, chain⟩
      cases read.symm.trans (Number.ofForms_eq_ok.mpr same)
      simpa using Number.ordered_iff.mpr chain
  | error error =>
    have called : Primitive.numberEqual.call args = throw error := by
      unfold Primitive.call Primitive.compare Primitive.numbers
      rw [read]
      rfl
    rw [callNative_of_throw called]
    refine iff_of_false nofun ?_
    rintro ⟨ns, same, _⟩
    cases read.symm.trans (Number.ofForms_eq_ok.mpr same)

theorem Number.near_of_chain {ns : List Number} (chain : ns.IsChain Meets) :
    ∀ a ∈ ns, ∀ b ∈ ns, a.Near b := by
  have transitive : Trans Near Near Near := ⟨Near.trans⟩
  have symmetric : Std.Symm Near := ⟨fun _ _ => Near.symm⟩
  have pairwise := List.isChain_iff_pairwise.mp (chain.imp fun _ _ => Meets.near)
  exact pairwise.forall_of_forall fun a _ => .inl rfl

theorem Machine.equates_pair {m : Machine} {a b : Number} :
    m.Equates [a.form, b.form] ↔ a.Meets b := by
  have pair : [a.form, b.form] = [a, b].map Number.form := rfl
  rw [equates_iff, pair, ← List.isChain_pair (R := Number.Meets)]
  constructor
  · rintro ⟨ns, same, chain⟩
    exact List.map_injective_iff.mpr (fun _ _ => Number.form_inj.mp) same ▸ chain
  · exact fun chain => ⟨[a, b], rfl, chain⟩

/-- Two forms that are equal to a third one are equal, unless they have different integers that are
nearest to one real; below the limit there are none. It is the same with numbers each of which is
equal to the next. -/
theorem equality_transitive_up_to_integers (heap : Identity → Form × Form) (m : Machine) :
    (∀ u v w : Form, u.LiesIn heap → v.LiesIn heap → w.LiesIn heap → u.WithoutNaN →
      v.WithoutNaN → w.WithoutNaN → u.isEqual v → v.isEqual w →
        (u.isEqual w ↔ ¬ u.Clash w) ∧ (u.Exact → w.Exact → u.isEqual w)) ∧
    ∀ args : List Form, (∀ f ∈ args, f.WithoutNaN) → m.Equates args →
      ∀ x ∈ args, ∀ y ∈ args,
        (m.Equates [x, y] ↔ ¬ x.Clash y) ∧ (x.Exact → y.Exact → m.Equates [x, y]) := by
  constructor
  · intro u v w uLies vLies wLies uNumbers vNumbers wNumbers first rest
    rw [Form.isEqual_eq_isAlike uLies vLies uNumbers] at first
    rw [Form.isEqual_eq_isAlike vLies wLies vNumbers] at rest
    rw [Form.isEqual_eq_isAlike uLies wLies uNumbers]
    obtain ⟨apart, small⟩ := Form.isAlike_chain uNumbers first rest
    exact ⟨apart, fun u w => apart.mpr (small u w)⟩
  · intro args numbers equates x xMember y yMember
    obtain ⟨ns, rfl, chain⟩ := Machine.equates_iff.mp equates
    -- Whatever stands between two elements, they are near.
    obtain ⟨a, aMember, rfl⟩ := List.mem_map.mp xMember
    obtain ⟨b, bMember, rfl⟩ := List.mem_map.mp yMember
    have near := Number.near_of_chain chain a aMember b bMember
    have apart := near.meets_iff (numbers _ xMember)
    rw [Machine.equates_pair]
    exact ⟨apart, fun a b => apart.mpr (near.not_clash a b)⟩

/-- The zeros of both signs, with an integer between them. -/
theorem equality_transitive_up_to_integers_of_zeros :
    (Form.pair 0 (.real 0) .nil).isEqual (.pair 2 (.real (-0)) .nil) = true ∧
      Machine.Equates {} [.real 0, .real (-0)] := by
  let heap : Identity → Form × Form
    | 0 => (.real 0, .nil)
    | 1 => (.int 0, .nil)
    | _ => (.real (-0), .nil)
  obtain ⟨forms, numbers⟩ := equality_transitive_up_to_integers heap {}
  have positive : ((0 : Float) == 0) = true := by decide +kernel
  have negative : ((-0 : Float) == -0) = true := by decide +kernel
  constructor
  · obtain ⟨-, equal⟩ := forms (.pair 0 (.real 0) .nil) (.pair 1 (.int 0) .nil)
      (.pair 2 (.real (-0)) .nil) ⟨rfl, trivial, trivial⟩ ⟨rfl, trivial, trivial⟩
      ⟨rfl, trivial, trivial⟩ ⟨positive, trivial⟩ ⟨trivial, trivial⟩ ⟨negative, trivial⟩
      (by decide +kernel) (by decide +kernel)
    exact equal ⟨trivial, trivial⟩ ⟨trivial, trivial⟩
  · have chain : [Number.real 0, .int 0, .real (-0)].IsChain Number.Meets :=
      Number.ordered_iff.mp (by decide +kernel)
    have each : ∀ f ∈ [Form.real 0, .int 0, .real (-0)], f.WithoutNaN := by
      simp [Form.WithoutNaN, positive, negative]
    obtain ⟨-, equal⟩ := numbers _ each (Machine.equates_iff.mpr ⟨_, rfl, chain⟩)
      (.real 0) (by simp) (.real (-0)) (by simp)
    exact equal trivial trivial

/-- Above the limit two integers are nearest to one real, so it is equal to both. -/
theorem equality_not_transitive :
    ((Form.int 9007199254740993).isEqual (.real 9007199254740992) = true ∧
      (Form.real 9007199254740992).isEqual (.int 9007199254740992) = true ∧
      (Form.int 9007199254740993).isEqual (.int 9007199254740992) = false) ∧
    Machine.Equates {} [.int 9007199254740993, .real 9007199254740992, .int 9007199254740992] ∧
      ¬ Machine.Equates {} [.int 9007199254740993, .int 9007199254740992] := by
  have chain : [Number.int 9007199254740993, .real 9007199254740992,
      .int 9007199254740992].IsChain Number.Meets :=
    Number.ordered_iff.mp (by decide +kernel)
  have apart : ¬ (Number.int 9007199254740993).Meets (.int 9007199254740992) := by
    simp only [Number.Meets]
    decide
  refine ⟨by decide +kernel, Machine.equates_iff.mpr ⟨_, rfl, chain⟩, ?_⟩
  exact fun equates => apart (Machine.equates_pair.mp equates)

end Vau

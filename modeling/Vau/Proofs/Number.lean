import Mathlib.Data.Rat.Cast.CharZero
import Mathlib.Tactic.NormNum
import Vau.Machine
import Vau.Proofs.Arity
import Vau.Proofs.Syntax

/-! Arithmetic on integers is exact, or its result is a real.

Partial results are taken from left to right in the rationals. As long as they are integers of 64
bits the natives have just these; from the first that is not one on, they have reals. -/

set_option autoImplicit false

namespace Vau

namespace Number

def Fits (q : ℚ) : Prop := ∃ n : Int64, q = n.toInt

variable (op : ℚ → ℚ → ℚ) (first : ℚ) (rest : List Int64)

/-- Exact results of an operation, from what is first on, each with one integer more. -/
def partials : List ℚ := rest.scanl (fun q n => op q n.toInt) first

def exactly : ℚ := rest.foldl (fun q n => op q n.toInt) first

/-- The number is the exact result if all partial results are integers of 64 bits, and otherwise a
real. -/
structure Follows (n : Number) : Prop where
  integer : (∃ z, n = .int z) ↔ ∀ q ∈ partials op first rest, Fits q
  exact : ∀ z, n = .int z → (z.toInt : ℚ) = exactly op first rest
  real : (∃ x, n = .real x) ↔ ∃ q ∈ partials op first rest, ¬ Fits q

variable {op first rest}

theorem follows_int {z : Int64} (fit : ∀ q ∈ partials op first rest, Fits q)
    (exact : (z.toInt : ℚ) = exactly op first rest) : Follows op first rest (.int z) where
  integer := iff_of_true ⟨z, rfl⟩ fit
  exact _ same := int.inj same ▸ exact
  real := iff_of_false nofun fun ⟨q, member, leaves⟩ => leaves (fit q member)

theorem follows_real {x : Float} {q : ℚ} (member : q ∈ partials op first rest)
    (leaves : ¬ Fits q) : Follows op first rest (.real x) where
  integer := iff_of_false nofun fun fit => leaves (fit q member)
  exact := nofun
  real := iff_of_true ⟨x, rfl⟩ ⟨q, member, leaves⟩

theorem fits_intCast {z : Int} : Fits z ↔ inRange z = true := by
  unfold inRange
  rw [Bool.and_eq_true, decide_eq_true_eq, decide_eq_true_eq]
  constructor
  · rintro ⟨n, same⟩
    obtain rfl : z = n.toInt := Int.cast_injective same
    exact ⟨n.minValue_le_toInt, n.toInt_le⟩
  · rintro ⟨least, greatest⟩
    have least : -2 ^ 63 ≤ z := least
    have greatest : z ≤ 2 ^ 63 - 1 := greatest
    exact ⟨.ofInt z, by rw [Int64.toInt_ofInt_of_le least (by omega)]⟩

/-! One operation. -/

structure Extends (op : ℚ → ℚ → ℚ) (f : Number → Number → Except Error Number) (y : Int64) :
    Prop where
  exact : ∀ x z : Int64, op x.toInt y.toInt = z.toInt → f (.int x) (.int y) = .ok (.int z)
  turns : ∀ x : Int64, ¬ Fits (op x.toInt y.toInt) → ∃ r, f (.int x) (.int y) = .ok (.real r)
  stays : ∀ r, ∃ r', f (.real r) (.int y) = .ok (.real r')

theorem Extends.combine {exact : Int → Int → Int} (real : Float → Float → Float)
    (agrees : ∀ x y : Int, op x y = exact x y) (y : Int64) :
    Extends op (fun m n => .ok (Number.combine exact real m n)) y where
  exact x z same := by
    have result : exact x.toInt y.toInt = z.toInt :=
      Int.cast_injective ((agrees _ _).symm.trans same)
    unfold Number.combine
    dsimp only
    rw [result, if_pos (fits_intCast.mp ⟨z, rfl⟩), Int64.ofInt_toInt]
  turns x leaves := by
    rw [agrees, fits_intCast] at leaves
    exact ⟨_, congrArg _ (if_neg leaves)⟩
  stays r := ⟨_, rfl⟩

theorem divide_zero (x : Number) : divide x (.int 0) = .error (.of .divisionByZero) := by
  unfold divide
  exact if_pos rfl

theorem divide_ne_zero {y : Int64} (nonzero : y ≠ 0) (x : Number) :
    divide x (.int y) = match x with
      | .int m =>
        if m.toInt % y.toInt = 0 ∧ inRange (m.toInt / y.toInt) then
          .ok (.int (.ofInt (m.toInt / y.toInt)))
        else .ok (.real (Form.nearest m / Form.nearest y))
      | .real x => .ok (.real (x / Form.nearest y)) := by
  have divisor : isZero (.int y) = false := beq_eq_false_iff_ne.mpr nonzero
  unfold divide
  rw [if_neg (by rw [divisor]; nofun)]
  cases x <;> rfl

theorem exists_divide {y : Int64} (nonzero : y ≠ 0) (x : Number) :
    ∃ q, divide x (.int y) = .ok q := by
  rw [divide_ne_zero nonzero]
  cases x with
  | int m =>
    dsimp only
    split <;> exact ⟨_, rfl⟩
  | real r => exact ⟨_, rfl⟩

theorem extends_divide {y : Int64} (nonzero : y ≠ 0) : Extends (· / ·) divide y := by
  have divisor : y.toInt ≠ 0 := fun zero => nonzero (Int64.toInt_inj.mp zero)
  have divisor' : (y.toInt : ℚ) ≠ 0 := Int.cast_ne_zero.mpr divisor
  refine ⟨fun x z same => ?_, fun x leaves => ?_, fun r => ⟨_, divide_ne_zero nonzero _⟩⟩
  · have product : x.toInt = z.toInt * y.toInt := by
      rw [div_eq_iff divisor'] at same
      exact_mod_cast same
    have quotient : x.toInt / y.toInt = z.toInt := by
      rw [product, Int.mul_ediv_cancel _ divisor]
    rw [divide_ne_zero nonzero]
    dsimp only
    rw [quotient, if_pos ⟨product ▸ Int.mul_emod_left _ _, fits_intCast.mp ⟨z, rfl⟩⟩,
      Int64.ofInt_toInt]
  · refine ⟨_, (divide_ne_zero nonzero _).trans (if_neg ?_)⟩
    rintro ⟨divides, small⟩
    have quotient : ((x.toInt / y.toInt : Int) : ℚ) = (x.toInt : ℚ) / y.toInt :=
      Int.cast_div (Int.dvd_of_emod_eq_zero divides) divisor'
    exact leaves (quotient ▸ fits_intCast.mpr small)

/-! Operations in a row. -/

variable {f : Number → Number → Except Error Number}

theorem partials_cons (y : Int64) :
    partials op first (y :: rest) = first :: partials op (op first y.toInt) rest :=
  List.scanl_cons

theorem first_mem_partials : first ∈ partials op first rest := by
  cases rest with
  | nil => exact List.mem_singleton.mpr rfl
  | cons y rest =>
    rw [partials_cons]
    exact List.mem_cons_self

theorem Follows.cons {n : Number} {y : Int64} (fits : Fits first)
    (follows : Follows op (op first y.toInt) rest n) : Follows op first (y :: rest) n where
  integer := by
    rw [partials_cons, List.forall_mem_cons, and_iff_right fits]
    exact follows.integer
  exact := follows.exact
  real := by
    rw [partials_cons, follows.real]
    simp only [List.mem_cons, exists_eq_or_imp, fits, not_true_eq_false, false_or]

theorem foldlM_real (each : ∀ y ∈ rest, Extends op f y) (r : Float) :
    ∃ r', (rest.map int).foldlM f (.real r) = .ok (.real r') := by
  induction rest generalizing r with
  | nil => exact ⟨r, rfl⟩
  | cons y rest ih =>
    obtain ⟨r', step⟩ := (each y List.mem_cons_self).stays r
    obtain ⟨last, run⟩ := ih (fun z member => each z (List.mem_cons_of_mem _ member)) r'
    exact ⟨last, by rw [List.map_cons, List.foldlM_cons, step]; exact run⟩

/-- The first partial result that leaves the integers turns the result real. -/
theorem exists_foldlM (each : ∀ y ∈ rest, Extends op f y) (x : Int64) :
    ∃ n, (rest.map int).foldlM f (.int x) = .ok n ∧ n.Follows op x.toInt rest := by
  induction rest generalizing x with
  | nil => exact ⟨_, rfl, follows_int (fun q member => ⟨x, List.mem_singleton.mp member⟩) rfl⟩
  | cons y rest ih =>
    have later := fun z member => each z (List.mem_cons_of_mem y member)
    have step := each y List.mem_cons_self
    by_cases fits : Fits (op x.toInt y.toInt)
    · obtain ⟨z, same⟩ := fits
      obtain ⟨n, run, follows⟩ := ih later z
      have whole : ((y :: rest).map int).foldlM f (.int x) = .ok n := by
        rw [List.map_cons, List.foldlM_cons, step.exact x z same]
        exact run
      exact ⟨n, whole, .cons ⟨x, rfl⟩ (same ▸ follows)⟩
    · -- From here on the results are reals, whatever the exact ones are.
      obtain ⟨r, turned⟩ := step.turns x fits
      obtain ⟨r', run⟩ := foldlM_real later r
      have whole : ((y :: rest).map int).foldlM f (.int x) = .ok (.real r') := by
        rw [List.map_cons, List.foldlM_cons, turned]
        exact run
      have member : op x.toInt y.toInt ∈ partials op x.toInt (y :: rest) := by
        rw [partials_cons]
        exact List.mem_cons_of_mem _ first_mem_partials
      exact ⟨_, whole, follows_real member fits⟩

theorem follows_foldl {f : Number → Number → Number}
    (each : ∀ y ∈ rest, Extends op (fun m n => .ok (f m n)) y) (x : Int64) :
    Follows op x.toInt rest ((rest.map int).foldl f (.int x)) := by
  obtain ⟨n, run, follows⟩ := exists_foldlM each x
  have pure : (rest.map int).foldlM (fun m n => pure (f m n)) (.int x) = Except.ok n := run
  rw [List.foldlM_pure] at pure
  cases pure
  exact follows

theorem follows_sum (xs : List Int64) : Follows (· + ·) 0 xs (sum (xs.map .int)) := by
  have agrees (x y : Int) : (x + y : ℚ) = (x + y : Int) := (Int.cast_add x y).symm
  have follows := follows_foldl (fun y (_ : y ∈ xs) => .combine (· + ·) agrees y) 0
  rwa [Int64.toInt_zero, Int.cast_zero] at follows

theorem follows_product (xs : List Int64) : Follows (· * ·) 1 xs (product (xs.map .int)) := by
  have agrees (x y : Int) : (x * y : ℚ) = (x * y : Int) := (Int.cast_mul x y).symm
  have follows := follows_foldl (fun y (_ : y ∈ xs) => .combine (· * ·) agrees y) 1
  rwa [Int64.toInt_one, Int.cast_one] at follows

theorem follows_subtract (x : Int64) (rest : List Int64) :
    Follows (· - ·) x.toInt rest ((rest.map .int).foldl subtract (.int x)) := by
  have agrees (x y : Int) : (x - y : ℚ) = (x - y : Int) := (Int.cast_sub x y).symm
  exact follows_foldl (fun y (_ : y ∈ rest) => .combine (· - ·) agrees y) x

theorem foldlM_divide_zero {x : Number} (zero : 0 ∈ rest) :
    (rest.map int).foldlM divide x = .error (.of .divisionByZero) := by
  induction rest generalizing x with
  | nil => cases zero
  | cons y rest ih =>
    rw [List.map_cons, List.foldlM_cons]
    by_cases divisor : y = 0
    · rw [divisor, divide_zero]
      rfl
    · obtain ⟨q, step⟩ := exists_divide divisor x
      rw [step]
      exact ih ((List.mem_cons.mp zero).resolve_left (Ne.symm divisor))

theorem exists_foldlM_divide (nonzero : 0 ∉ rest) (x : Int64) :
    ∃ n, (rest.map int).foldlM divide (.int x) = .ok n ∧ n.Follows (· / ·) x.toInt rest :=
  exists_foldlM (fun _ member => extends_divide fun same => nonzero (same ▸ member)) x

theorem ofForm?_eq_some {f : Form} {n : Number} : ofForm? f = some n ↔ f = n.form := by
  cases f <;> cases n <;> simp [ofForm?, form]

theorem form_inj {a b : Number} : a.form = b.form ↔ a = b := by
  cases a <;> cases b <;> simp [form]

theorem ofForms_eq_ok {text : Form → String} {place : Nat} {args : List Form} {ns : List Number} :
    ofForms text place args = .ok ns ↔ ns.map form = args := by
  induction args generalizing place ns with
  | nil => simp [ofForms, eq_comm]
  | cons f rest ih =>
    rw [List.map_eq_cons_iff, ofForms]
    cases read : ofForm? f with
    | none =>
      refine iff_of_false nofun ?_
      rintro ⟨n, _, _, rfl, _⟩
      cases read.symm.trans (ofForm?_eq_some.mpr rfl)
    | some n =>
      obtain rfl := ofForm?_eq_some.mp read
      rw [Except.bind_eq_ok]
      constructor
      · rintro ⟨ms, others, same⟩
        cases same
        exact ⟨n, ms, rfl, rfl, ih.mp others⟩
      · rintro ⟨n', ms, rfl, same, others⟩
        obtain rfl := form_inj.mp same
        exact ⟨ms, ih.mpr others, rfl⟩

theorem ofForms_int (text : Form → String) (place : Nat) (xs : List Int64) :
    ofForms text place (xs.map .int) = .ok (xs.map .int) :=
  ofForms_eq_ok.mpr List.map_map

end Number

/-! The natives. -/

namespace Primitive

theorem numbers_int (p : Primitive) (xs : List Int64) :
    p.numbers (xs.map .int) = pure (xs.map .int) := by
  unfold numbers
  rw [Number.ofForms_int]
  rfl

theorem call_add (xs : List Int64) :
    add.call (xs.map .int) = pure (Number.sum (xs.map .int)).form := by
  unfold call
  dsimp only
  rw [numbers_int, pure_bind]

theorem call_multiply (xs : List Int64) :
    multiply.call (xs.map .int) = pure (Number.product (xs.map .int)).form := by
  unfold call
  dsimp only
  rw [numbers_int, pure_bind]

theorem check_atLeast_one (x : Int64) (xs : List Int64) :
    Arity.check (.atLeast 1) ((x :: xs).map Form.int).length = .ok () := by
  refine (Arity.check_iff_demands (.inl rfl)).mpr ⟨?_, .inl rfl⟩
  exact Nat.succ_le_of_lt (Nat.succ_pos _)

theorem call_subtract (x : Int64) (xs : List Int64) : subtract.call ((x :: xs).map .int) =
    pure (Number.difference ((x :: xs).map .int)).form := by
  unfold call
  dsimp only
  rw [check_atLeast_one, numbers_int]
  rfl

theorem call_divide (x : Int64) (xs : List Int64) : divide.call ((x :: xs).map .int) =
    (do return (← ofExcept (Number.quotient ((x :: xs).map .int))).form) := by
  unfold call
  dsimp only
  rw [check_atLeast_one, numbers_int]
  rfl

end Primitive

namespace Machine

variable {m : Machine} {p : Primitive} {args : List Form}

theorem callNative_of_pure {value : Form} (called : p.call args = pure value) :
    m.callNative (.primitive p) args = (.ok value, m) := by
  unfold callNative
  dsimp only
  rw [called]
  rfl

theorem callNative_of_throw {error : Error} (called : p.call args = throw error) :
    m.callNative (.primitive p) args = (.error (error.orOperator p.name).fromNative, m) := by
  unfold callNative
  dsimp only
  rw [called]
  rfl

/-- The native gives the number that follows from exact arithmetic, and changes nothing. -/
def Computes (m : Machine) (p : Primitive) (args : List Int64) (op : ℚ → ℚ → ℚ) (first : ℚ)
    (rest : List Int64) : Prop :=
  ∃ n : Number, m.callNative (.primitive p) (args.map .int) = (.ok n.form, m) ∧
    n.Follows op first rest

def RefusesZero (m : Machine) (args : List Int64) : Prop :=
  m.callNative (.primitive .divide) (args.map .int) =
    (.error { cause := .divisionByZero, operator := some "/", native := true }, m)

theorem divides {first x : Int64} {args rest : List Int64}
    (quotient : Number.quotient ((x :: args).map .int) =
      (rest.map .int).foldlM Number.divide (.int first)) :
    if 0 ∈ rest then m.RefusesZero (x :: args)
    else m.Computes .divide (x :: args) (· / ·) first.toInt rest := by
  have call := Primitive.call_divide x args
  rw [quotient] at call
  split
  · rename_i zero
    rw [Number.foldlM_divide_zero zero] at call
    exact callNative_of_throw call
  · rename_i nonzero
    obtain ⟨n, run, follows⟩ := Number.exists_foldlM_divide nonzero first
    rw [run] at call
    exact ⟨n, callNative_of_pure call, follows⟩

/-- On integers the natives give an integer exactly if all partial results are integers of 64 bits,
and then the exact result; otherwise a real. A division fails exactly if a divisor is zero. -/
theorem integer_arithmetic (m : Machine) :
    (∀ xs, m.Computes .add xs (· + ·) 0 xs) ∧
    (∀ xs, m.Computes .multiply xs (· * ·) 1 xs) ∧
    (∀ x, m.Computes .subtract [x] (· - ·) 0 [x]) ∧
    (∀ (x y : Int64) (rest : List Int64),
      m.Computes .subtract (x :: y :: rest) (· - ·) x.toInt (y :: rest)) ∧
    (∀ x, if x = 0 then m.RefusesZero [x] else m.Computes .divide [x] (· / ·) 1 [x]) ∧
    ∀ (x y : Int64) (rest : List Int64),
      if 0 ∈ y :: rest then m.RefusesZero (x :: y :: rest)
      else m.Computes .divide (x :: y :: rest) (· / ·) x.toInt (y :: rest) := by
  refine ⟨fun xs => ?_, fun xs => ?_, fun x => ?_, fun x y rest => ?_, fun x => ?_,
    fun x y rest => divides rfl⟩
  · exact ⟨_, callNative_of_pure (Primitive.call_add xs), Number.follows_sum xs⟩
  · exact ⟨_, callNative_of_pure (Primitive.call_multiply xs), Number.follows_product xs⟩
  · have follows := Number.follows_subtract 0 [x]
    rw [Int64.toInt_zero, Int.cast_zero] at follows
    exact ⟨_, callNative_of_pure (Primitive.call_subtract x []), follows⟩
  · exact ⟨_, callNative_of_pure (Primitive.call_subtract x (y :: rest)),
      Number.follows_subtract x (y :: rest)⟩
  · have once : Number.quotient [.int x] = [Number.int x].foldlM Number.divide (.int 1) := by
      rw [List.foldlM_cons]
      exact (bind_pure _).symm
    have reciprocal := @divides m 1 x [] [x] once
    simpa only [List.mem_singleton, eq_comm, Int64.toInt_one, Int.cast_one] using reciprocal

end Machine

end Vau

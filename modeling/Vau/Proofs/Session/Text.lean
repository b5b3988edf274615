import Vau.Proofs.Session

/-! Evaluating a text is one of the things that a program can do with its machine. The derived
combiners of the ground environment get there so. -/

set_option autoImplicit false

namespace Vau

theorem Form.Plain.later {m later : Machine} {f : Form} (plain : f.Plain m)
    (grows : m.Grows later) : f.Plain later :=
  fun D room => plain D (room.earlier grows)

namespace Form

def pairsOf : List Datum → Nat
  | [] => 0
  | d :: data => pairs d + pairsOf data

/-- Forms of data, with their pairs numbered from here on. -/
def numbered (fresh : Nat) : List Datum → List Form
  | [] => []
  | d :: data => (ofDatum d fresh).1 :: numbered (fresh + pairs d) data

theorem obeys_numbered {D : Discipline} (data : List Datum) {fresh : Nat}
    (numbers : ∀ i : Nat, fresh ≤ i → i < fresh + pairsOf data → D.object i) :
    ∀ f ∈ numbered fresh data, f.Obeys D := by
  induction data generalizing fresh with
  | nil => nofun
  | cons d data ih =>
    unfold pairsOf at numbers
    intro f member
    rcases List.mem_cons.mp member with rfl | member
    · exact obeys_ofDatum d fun i low high => numbers i low (by omega)
    · exact ih (fun i low high => numbers i (by omega) (by omega)) f member

theorem pairsOf_append (data rest : List Datum) :
    pairsOf (data ++ rest) = pairsOf data + pairsOf rest := by
  induction data with
  | nil => exact (Nat.zero_add _).symm
  | cons d data ih => rw [List.cons_append, pairsOf, pairsOf, ih, Nat.add_assoc]

theorem numbered_append (data rest : List Datum) (fresh : Nat) :
    numbered fresh (data ++ rest) =
      numbered fresh data ++ numbered (fresh + pairsOf data) rest := by
  induction data generalizing fresh with
  | nil => rfl
  | cons d data ih =>
    rw [pairsOf, ← Nat.add_assoc]
    exact congrArg (_ :: ·) (ih (fresh + pairs d))

end Form

/-- New forms take up numbers, and nothing else. -/
theorem Machine.run_forms (data : List Datum) (store : Store) :
    (forms data).run store =
      (Form.numbered store.fresh data, { store with fresh := store.fresh + Form.pairsOf data }) := by
  induction data generalizing store with
  | nil => rfl
  | cons d data ih =>
    have first := Form.fresh_ofDatum d store.fresh
    have rest := ih { store with fresh := store.fresh + Form.pairs d }
    unfold forms at rest ⊢
    simp only [List.mapM_cons, StateT.run_bind, StateT.run_modifyGet, pure_bind, first, rest,
      bind_pure_comp, StateT.run_map]
    rw [Form.pairsOf, ← Nat.add_assoc]
    rfl

namespace Machine

def reserve (m : Machine) (count : Nat) : Machine :=
  { m with store.fresh := m.store.fresh + count }

variable {m : Machine} {text : String} {file : Option String}

theorem evalText_of_read {data : List Datum} (found : Vau.read text file = .ok data) (fuel : Nat)
    (scope : ScopeId) : m.evalText fuel text file scope =
      (m.reserve (Form.pairsOf data)).evalAll fuel scope .inert
        (Form.numbered m.store.fresh data) := by
  unfold evalText Machine.read
  rw [found]
  simp only [run_forms]
  rfl

/-- What cannot be read is not begun. -/
theorem evalText_of_unread {error : Error} (refused : Vau.read text file = .error error)
    (fuel : Nat) (scope : ScopeId) :
    m.evalText fuel text file scope = some (.error error, m) := by
  unfold evalText Machine.read
  rw [refused]

end Machine

namespace Session.Reachable

variable {s : Session}

theorem evalAll (reachable : s.Reachable) {forms : List Form}
    (plain : ∀ f ∈ forms, f.Plain s.machine) {scope : ScopeId}
    (bound : scope < s.machine.store.scopes.size) {fuel : Nat} {value : Form}
    {result : Except Error Form} {m : Machine}
    (ran : s.machine.evalAll fuel scope value forms = some (result, m)) :
    (∃ kept, Session.Reachable ⟨m, kept⟩) ∧ s.machine.Grows m := by
  induction forms generalizing s value with
  | nil =>
    cases ran
    exact ⟨⟨s.kept, reachable⟩, .refl _⟩
  | cons form rest ih =>
    have known : s.Knows form := fun D obeys => plain form (by simp) D obeys.room
    unfold Machine.evalAll at ran
    split at ran
    · rename_i v m' evaluated
      have grows := reachable.sourced.grows_evalIn known evaluated
      obtain ⟨kept, more⟩ := ih (reachable.tail (.evaluate known bound evaluated))
        (fun f member => (plain f (List.mem_cons_of_mem _ member)).later grows)
        (Nat.lt_of_lt_of_le bound grows.store.scopes) ran
      exact ⟨kept, grows.trans more⟩
    · exact ⟨⟨_, reachable.tail (.evaluate known bound ran)⟩,
        reachable.sourced.grows_evalIn known ran⟩

theorem evalText {m : Machine} {kept : List Form} (reachable : Session.Reachable ⟨m, kept⟩)
    {scope : ScopeId} (bound : scope < m.store.scopes.size) {fuel : Nat} {text : String}
    {file : Option String} {result : Except Error Form} {m' : Machine}
    (ran : m.evalText fuel text file scope = some (result, m')) :
    ∃ kept, Session.Reachable ⟨m', kept⟩ := by
  unfold Machine.evalText Machine.read at ran
  cases found : Vau.read text file with
  | ok data =>
    simp only [found, Machine.run_forms] at ran
    have numbered := reachable.tail (.number (Form.pairsOf data))
    refine (evalAll numbered (fun f member D room => ?_) bound ran).1
    exact Form.obeys_numbered data (fun i _ high => room.object i high) f member
  | error error =>
    rw [found] at ran
    cases ran
    exact ⟨kept, reachable⟩

theorem load {m : Machine} {kept : List Form} (reachable : Session.Reachable ⟨m, kept⟩)
    {scope : ScopeId} (bound : scope < m.store.scopes.size) {fuel : Nat} {file text : String}
    {result : Except Error Form} {m' : Machine}
    (ran : m.load fuel file text scope = some (result, m')) :
    ∃ kept, Session.Reachable ⟨m', kept⟩ := by
  obtain ⟨⟨result', m''⟩, evaluated, same⟩ := Option.map_eq_some_iff.mp ran
  cases same
  exact reachable.evalText bound evaluated

end Session.Reachable

end Vau

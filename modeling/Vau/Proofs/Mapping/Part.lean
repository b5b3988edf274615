import Vau.Proofs.Mapping

/-! `map` with a combiner that takes a part of each element.

Nothing is done on the way but giving out numbers and making scopes. -/

set_option autoImplicit false

namespace Vau

def Form.second? (f : Form) : Option Form := f.cdr?.bind Form.car?

/-- The answer is the part, and nothing was done. -/
def World.Gives (part : Form → Option Form) (w : World) (v : Form) (result : Except Error Form)
    (later : World) : Prop :=
  (∃ r, part v = some r ∧ result = .ok r) ∧ w.Widens later

variable {part : Form → Option Form} {w later : World}

theorem Threads.ok_of_gives {vs rs : List Form} {outcome : Except Error (List Form)}
    (threads : Threads (World.Gives part) w vs outcome later) (parts : vs.map part = rs.map some) :
    outcome = .ok rs ∧ w.Widens later := by
  induction threads generalizing rs with
  | nil widens =>
    obtain rfl := List.map_eq_nil_iff.mp parts.symm
    exact ⟨rfl, widens⟩
  | cons widens gives _ ih =>
    obtain ⟨⟨r, found, same⟩, more⟩ := gives
    cases rs with
    | nil => cases parts
    | cons r' rs =>
      obtain ⟨first, rest⟩ := List.cons.inj parts
      obtain ⟨rfl, last⟩ := ih rest
      cases same
      cases found.symm.trans first
      exact ⟨rfl, (widens.trans more).trans last⟩
  | fail _ gives =>
    obtain ⟨⟨r, _, same⟩, _⟩ := gives
    cases same

namespace Combiner

variable {c : Combiner}

theorem serves_of_part (other : ∀ k, c ≠ .continuation k)
    (receives : ∀ {w : World} {v r : Form}, w.store.scopes.Equipped → part v = some r → ∀ e,
      ∃ later, w.Widens later ∧
        ∀ fuel, (c.receive (combine (fuel + 4)) e [v]).result w = some (.ok r, later)) :
    c.Serves (World.Gives part) fun _ vs => ∀ v ∈ vs, (part v).isSome where
  other := other
  reserve _ ready := ready
  call := by
    intro w called v vs ready widens size equipped e
    obtain ⟨r, found⟩ := Option.isSome_iff_exists.mp (ready v (by simp))
    obtain ⟨later, more, received⟩ := receives equipped found e
    refine ⟨called, .ok r, later, .refl called, ⟨⟨r, found, rfl⟩, more⟩, received, fun _ _ => ?_⟩
    refine ⟨fun v member => ready v (List.mem_cons_of_mem _ member), ?_, ?_⟩
    · exact more.older _ equipped.grounded.size_pos
    · exact more.older _ (by omega)

theorem serves_car : (native (.primitive .car)).Serves (World.Gives Form.car?)
    fun _ vs => ∀ v ∈ vs, v.car?.isSome := by
  refine serves_of_part nofun fun {w v r} _ found e => ⟨w.reserve 1, w.widens_reserve 1, ?_⟩
  intro fuel
  cases v with
  | pair id car cdr =>
    cases found
    have called : (Primitive.car.call [.pair id r cdr]).run (w.reserve 1).store =
        (.ok r, (w.reserve 1).store) := rfl
    exact (result_receive (by nofun) _).trans (Meaning.result_native w.store.fresh called)
  | _ => cases found

theorem serves_second (inner fresh : Identity) :
    (operative inner Machine.ground (.second fresh)).Serves (World.Gives Form.second?)
      fun _ vs => ∀ v ∈ vs, v.second?.isSome := by
  refine serves_of_part nofun fun {w v r} equipped found e => ?_
  obtain ⟨tail, isTail, isHead⟩ := Option.bind_eq_some_iff.mp found
  have fits : (Template.second fresh).parameters.Fits (Form.chain [v] .nil w.store.fresh).1 :=
    Form.fits_pair.mpr ⟨(Form.fits_of_atom rfl).mpr nofun, (Form.fits_of_atom rfl).mpr fun _ => rfl⟩
  obtain ⟨scopes, entered, body⟩ :=
    @result_closure inner Machine.ground (.second fresh) rfl _ w fits e
  have names {name : String} (named : (Template.second fresh).parameters.Names name) :
      -- No primitive has the name of the parameter, so each means in the body what it did.
      name = "x" := by
    change (Form.pair _ (.symbol "x") .nil).Names name at named
    simp only [Form.names_pair, Form.names_of_atom (f := .symbol _) rfl,
      Form.names_of_atom (f := .nil) rfl, Form.symbol.injEq, reduceCtorEq, or_false] at named
    exact named.symm
  have other (p : Primitive) : p.name ≠ "x" := by cases p <;> decide
  have primitive (p : Primitive) : ∃ id, scopes.lookup w.store.scopes.size p.name =
      .ok (.combiner (.applicative id (.native (.primitive p)))) := by
    obtain ⟨id, bound⟩ := equipped.grounded.primitives p
    exact ⟨id, entered.lookup_static equipped.grounded.size_pos equipped.grounded.root
      (fun named => other p (names named)) nofun bound⟩
  obtain ⟨_, car⟩ := primitive .car
  obtain ⟨_, cdr⟩ := primitive .cdr
  have x : scopes.lookup w.store.scopes.size "x" = .ok v :=
    entered.lookup_parameter [.car] rfl rfl
  obtain ⟨j, cell, rfl, head⟩ : ∃ j cell, v = .pair j cell tail ∧ tail.car? = some r := by
    cases v with
    | pair j cell rest => exact ⟨j, cell, congrArg _ (Option.some.inj isTail), isHead⟩
    | _ => cases isTail
  obtain ⟨k, rest, rfl⟩ : ∃ k rest, tail = .pair k r rest := by
    cases tail with
    | pair k first rest => exact ⟨k, rest, congrArg (Form.pair k · rest) (Option.some.inj head)⟩
    | _ => cases head
  refine ⟨(w.withScopes scopes).reserve 5, entered.widens.reserve 5, fun fuel => ?_⟩
  have here : ((w.withScopes scopes).reserve 1).store.scopes.lookup w.store.scopes.size "x" =
      .ok (.pair j cell (.pair k r rest)) := x
  have others : ((Form.ofDatum (.list [.symbol "cdr", .symbol "x"]) (fresh + 1)).1.evaluate
      (combine (fuel + 2)) w.store.scopes.size).result ((w.withScopes scopes).reserve 1) =
        some (.ok (.pair k r rest), ((w.withScopes scopes).reserve 1).reserve 2) :=
    Form.result_call cdr rfl (Form.result_operands (Form.result_symbol here) Form.result_nil) rfl
  have first : ((Form.pair (fresh + 4) (.symbol "car") (.pair (fresh + 3)
      (Form.ofDatum (.list [.symbol "cdr", .symbol "x"]) (fresh + 1)).1 .nil)).evaluate
      (combine (fuel + 3)) w.store.scopes.size).result ((w.withScopes scopes).reserve 1) =
        some (.ok r, (w.withScopes scopes).reserve 5) :=
    Form.result_call car rfl (Form.result_operands others Form.result_nil) rfl
  exact (body (fuel + 3)).trans first

theorem Serves.map_part
    (serves : c.Serves (World.Gives part) fun _ vs => ∀ v ∈ vs, (part v).isSome)
    {vs rs : List Form} {xs : Form} (proper : xs.list? = some vs)
    (parts : vs.map part = rs.map some) (equipped : w.store.scopes.Equipped)
    (id inner fresh : Identity) (e : ScopeId) :
    ∃ value later, value.list? = some rs ∧ w.Widens later ∧
      ∀ fuel, 3 * vs.length + 4 ≤ fuel →
        ((operative inner Machine.ground (.mapping fresh)).receive (combine fuel) e
          [.combiner (.applicative id c), xs]).result w = some (.ok value, later) := by
  have here (v : Form) (member : v ∈ vs) : (part v).isSome := by
    have found : part v ∈ rs.map some := parts ▸ List.mem_map_of_mem member
    obtain ⟨r, _, same⟩ := List.mem_map.mp found
    exact same ▸ rfl
  obtain ⟨outcome, later, threads, ends, runs⟩ :=
    serves.map proper here equipped id inner fresh e
  obtain ⟨same, widens⟩ := threads.ok_of_gives parts
  cases outcome with
  | error error => cases same
  | ok value =>
    have items : value.items = rs := Except.ok.inj same
    refine ⟨value, later, ?_, widens, fun fuel enough => ?_⟩
    · rw [← items]
      exact if_pos (congrArg Form.isNil (ends value rfl))
    · obtain ⟨more, rfl⟩ := Nat.exists_eq_add_of_le' enough
      exact runs more

end Combiner

end Vau

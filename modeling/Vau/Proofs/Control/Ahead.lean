import Vau.Proofs.Control

/-! What lies ahead of code as long as it stays on its stack, and what it means that evaluation has
not come there yet. -/

set_option autoImplicit false

namespace Vau

/-- The target lies ahead of the code, along its links or where it resumes what it pushes. -/
inductive Code.Ahead (target : Code) : Code → Prop
  | here : Ahead target target
  | along {code : Code} : code.links ≠ [] → (∀ next ∈ code.links, Ahead target next) →
    Ahead target code
  | argument {next : Code} : Ahead target next → Ahead target (.argument next)
  | capture {next : Code} : Ahead target next → Ahead target (.capture next)
  | frame {resume next : Code} : Ahead target resume → Ahead target (.frame resume next)

namespace Code.Ahead

variable {target code next : Code}

theorem of_link (ahead : target.Ahead code) (other : code ≠ target) (link : next ∈ code.links) :
    target.Ahead next := by
  cases ahead with
  | here => exact (other rfl).elim
  | along _ each => exact each next link
  | argument | capture | frame => cases link

theorem of_argument (ahead : target.Ahead (.argument next)) (other : .argument next ≠ target) :
    target.Ahead next := by
  cases ahead with
  | here => exact (other rfl).elim
  | along links _ => exact (links rfl).elim
  | argument ahead => exact ahead

theorem of_capture (ahead : target.Ahead (.capture next)) (other : .capture next ≠ target) :
    target.Ahead next := by
  cases ahead with
  | here => exact (other rfl).elim
  | along links _ => exact (links rfl).elim
  | capture ahead => exact ahead

theorem of_frame {resume : Code} (ahead : target.Ahead (.frame resume next))
    (other : .frame resume next ≠ target) : target.Ahead resume := by
  cases ahead with
  | here => exact (other rfl).elim
  | along links _ => exact (links rfl).elim
  | frame ahead => exact ahead

theorem eq_of_ret (ahead : target.Ahead .ret) : .ret = target := by
  cases ahead with
  | here => rfl
  | along links _ => exact (links rfl).elim

theorem eq_of_combines {e : Evaluation} (ahead : target.Ahead e.code) (combines : e.Combines) :
    e.code = target := by
  rcases combines with ⟨operands, here⟩ | here <;> rw [here] at ahead ⊢
  all_goals
    cases ahead with
    | here => rfl
    | along links _ => exact (links rfl).elim

theorem single (links : code.links = [next]) (ahead : target.Ahead next) : target.Ahead code := by
  refine .along (by simp [links]) fun n member => ?_
  rw [links] at member
  exact List.mem_singleton.mp member ▸ ahead

theorem framed (proper : target ≠ .ret) (ahead : target.Ahead next) :
    target.Ahead (code.framed next) := by
  unfold Code.framed
  split
  · rename_i returns
    cases next <;> cases returns
    -- In front of a return no frame is pushed, but there the target is not ahead.
    exact (proper ahead.eq_of_ret.symm).elim
  · exact .frame ahead

theorem expr (x : Expr) (proper : target ≠ .ret) (ahead : target.Ahead next) :
    target.Ahead (x.code next) := by
  induction x generalizing next with
  | refer | constant | close => exact .single rfl ahead
  | conditional test consequent alternative testIH consequentIH alternativeIH =>
    refine testIH (.along nofun fun n member => ?_)
    rcases List.mem_cons.mp member with rfl | member
    · exact consequentIH ahead
    · exact List.mem_singleton.mp member ▸ alternativeIH ahead
  | define parameters value ih => exact ih (.single rfl ahead)
  | assign target value ih => exact ih (.single rfl ahead)
  | sequence first rest firstIH restIH => exact firstIH (restIH ahead)
  | capture receiver ih => exact .framed proper ahead
  | combine operator operands ih => exact .framed proper ahead

end Code.Ahead

inductive Stack.Below (base : Stack) : Stack → Prop
  | push {frame : Frame} : Below base (.push frame base)
  | above {frame : Frame} {rest : Stack} : Below base rest → Below base (.push frame rest)

theorem Stack.Below.sizeOf_lt {base stack : Stack} (below : base.Below stack) :
    sizeOf base < sizeOf stack := by
  induction below with
  | push => simp +arith
  | above _ ih => exact Nat.lt_trans ih (by simp +arith)

/-- The code is on its way. Ahead of a return there is no more than that it is not there yet, as
calls in tail position go on with other code. -/
def Code.Awaited (next code : Code) : Prop := code ≠ next ∧ (next = .ret ∨ next.Ahead code)

def Evaluation.Pending (next : Code) (base : Stack) (e : Evaluation) : Prop :=
  base.Below e.stack ∨ e.stack = base ∧ next.Awaited e.code

theorem Code.sizeOf_link {code next : Code} (link : next ∈ code.links) :
    sizeOf next < sizeOf code := by
  cases code with
  | test consequent alternative =>
    rcases List.mem_cons.mp link with rfl | link
    · simp +arith
    · rw [List.mem_singleton.mp link]
      simp +arith
  | frame | apply | argument | capture | halt | call | ret => cases link
  | _ =>
    rw [List.mem_singleton.mp link]
    simp +arith

namespace Code.Ahead

variable {target middle code : Code}

theorem eq_or_lt (ahead : target.Ahead code) : code = target ∨ sizeOf target < sizeOf code := by
  have within {next code : Code} (smaller : sizeOf next < sizeOf code)
      (ih : next = target ∨ sizeOf target < sizeOf next) : sizeOf target < sizeOf code := by
    rcases ih with rfl | less
    · exact smaller
    · exact Nat.lt_trans less smaller
  induction ahead with
  | here => exact .inl rfl
  | @along code links _ ih =>
    obtain ⟨next, link⟩ := List.exists_mem_of_ne_nil _ links
    exact .inr (within (sizeOf_link link) (ih next link))
  | argument _ ih | capture _ ih | frame _ ih => exact .inr (within (by simp +arith) ih)

theorem antisymm (ahead : target.Ahead code) (back : code.Ahead target) : code = target := by
  rcases ahead.eq_or_lt with same | less
  · exact same
  · rcases back.eq_or_lt with same | more
    · exact same.symm
    · omega

theorem trans (later : target.Ahead middle) (ahead : middle.Ahead code) : target.Ahead code := by
  induction ahead with
  | here => exact later
  | along links _ ih => exact .along links ih
  | argument _ ih => exact .argument ih
  | capture _ ih => exact .capture ih
  | frame _ ih => exact .frame ih

end Code.Ahead

namespace Code.Awaited

variable {next middle code : Code}

theorem of_lt (less : sizeOf next < sizeOf code) (ahead : next = .ret ∨ next.Ahead code) :
    next.Awaited code :=
  ⟨fun same => by rw [same] at less; omega, ahead⟩

theorem single (links : code.links = [next]) : next.Awaited code :=
  .of_lt (sizeOf_link (by simp [links])) (.inr (.single links .here))

theorem frame : next.Awaited (.frame next code) :=
  .of_lt (by simp +arith) (.inr (.frame .here))

theorem trans (later : next.Awaited middle) (awaited : middle.Awaited code)
    (proper : middle ≠ .ret) : next.Awaited code := by
  have ahead : middle.Ahead code := awaited.2.resolve_left proper
  refine ⟨fun same => ?_, later.2.imp_right fun further => further.trans ahead⟩
  subst same
  rcases later.2 with rfl | further
  · exact proper ahead.eq_of_ret.symm
  · exact later.1 (further.antisymm ahead)

theorem test {alternative : Code} (consequent : next.Awaited code)
    (other : next.Awaited alternative) : next.Awaited (.test code alternative) := by
  have proper (first second : Code) : Code.test first second ≠ .ret := by
    intro same
    cases same
  rcases consequent.2 with rfl | ahead
  · exact ⟨proper _ _, .inl rfl⟩
  · rcases other.2 with rfl | ahead'
    · exact ⟨proper _ _, .inl rfl⟩
    · have less := ahead.eq_or_lt.resolve_left consequent.1
      refine .of_lt (Nat.lt_trans less (sizeOf_link (by simp [links]))) (.inr ?_)
      refine .along (List.cons_ne_nil _ _) fun branch link => ?_
      rcases List.mem_cons.mp link with rfl | link
      · exact ahead
      · exact List.mem_singleton.mp link ▸ ahead'

theorem framed (proper : code ≠ .ret) : next.Awaited (code.framed next) := by
  unfold Code.framed
  split
  · rename_i returns
    cases next <;> cases returns
    exact ⟨proper, .inl rfl⟩
  · exact .frame

theorem expr (x : Expr) (next : Code) : next.Awaited (x.code next) := by
  induction x generalizing next with
  | refer | constant | close => exact .single rfl
  | conditional test consequent alternative testIH consequentIH alternativeIH =>
    exact (Awaited.test (consequentIH next) (alternativeIH next)).trans (testIH _) nofun
  | define parameters value ih | assign target value ih =>
    exact (Awaited.single rfl).trans (ih _) nofun
  | sequence first rest firstIH restIH =>
    exact (restIH next).trans (firstIH _) (rest.code_ne_ret next)
  | capture receiver ih => exact .framed nofun
  | combine operator operands ih => exact .framed (operator.code_ne_ret _)

end Code.Awaited

namespace Evaluation.Pending

variable {e : Evaluation} {next middle : Code} {base : Stack}

theorem single (links : e.code.links = [next]) : e.Pending next e.stack :=
  .inr ⟨rfl, .single links⟩

theorem trans (pending : e.Pending middle base) (later : next.Awaited middle)
    (proper : middle ≠ .ret) : e.Pending next base :=
  pending.imp_right fun ⟨same, awaited⟩ => ⟨same, later.trans awaited proper⟩

theorem to_ret (pending : e.Pending middle base) (proper : middle ≠ .ret) : e.Pending .ret base :=
  pending.trans ⟨proper, .inl rfl⟩ proper

theorem not_at (pending : e.Pending next base) (stack : e.stack = base) : e.code ≠ next := by
  rcases pending with above | ⟨_, awaited⟩
  · rw [stack] at above
    exact (Nat.lt_irrefl _ above.sizeOf_lt).elim
  · exact awaited.1

theorem of_push {frame : Frame} (pending : e.Pending middle (.push frame base)) :
    e.Pending next base := by
  have below {stack : Stack} (below : Stack.Below (.push frame base) stack) : base.Below stack := by
    induction below with
    | push => exact .above .push
    | above _ ih => exact .above ih
  rcases pending with above | ⟨same, _⟩
  · exact .inl (below above)
  · exact .inl (same ▸ .push)

end Evaluation.Pending

end Vau

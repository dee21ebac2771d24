import Mathlib.Data.List.Infix
import VerifierTrace.Proofs.Machine.Transition

/-!
# Balanced calls

A subprogram call, a body in which calls and exits match, and one more exit leave a machine almost
as it was. `Balanced` says that calls and exits match: no part that the body begins with has more
exits than calls, and the whole has as many of the one as of the other. `Machine.Restored` lists
what holds of the machine after the closing exit, and `restored_of_balanced` says that it holds
after every balanced call, whatever instructions, lines and facts the body consists of. All that the
body can change is the result.

What a body does to the waiting frames is a matter of counting. The frames that waited when it began
keep waiting under those that it has opened itself (`callers_performAll`), so a balanced body leaves
exactly the frame of the caller and its callers.
-/

set_option autoImplicit false
set_option relaxedAutoImplicit false

namespace VerifierTrace

/-- An instruction on a line, with the facts stated there. -/
structure Step where
  index : Nat
  instruction : Instruction
  facts : List Fact
  deriving DecidableEq, Repr

namespace Step

/-- The number of subprogram calls among some steps. -/
def calls (steps : List Step) : Nat :=
  steps.countP (·.instruction.isSubprogramCall)

/-- The number of exits among some steps. -/
def exits (steps : List Step) : Nat :=
  steps.countP (·.instruction.isExit)

theorem calls_cons (step : Step) (steps : List Step) :
    calls (step :: steps) = calls [step] + calls steps := by
  rw [← List.singleton_append]
  exact List.countP_append

theorem exits_cons (step : Step) (steps : List Step) :
    exits (step :: steps) = exits [step] + exits steps := by
  rw [← List.singleton_append]
  exact List.countP_append

end Step

open Step

/-- In some steps, begun when a number of frames could be left, no exit is without a frame to
leave. -/
def StaysAbove (opened : Nat) (steps : List Step) : Prop :=
  ∀ initial, initial <+: steps → exits initial ≤ calls initial + opened

/-- In some steps every exit has a call before it, and every call an exit after it. -/
structure Balanced (steps : List Step) : Prop where
  staysAbove : ∀ initial, initial <+: steps → exits initial ≤ calls initial
  total : exits steps = calls steps

instance (steps : List Step) : Decidable (Balanced steps) :=
  decidable_of_iff
    ((∀ initial ∈ steps.inits, exits initial ≤ calls initial) ∧ exits steps = calls steps) <| by
    constructor
    · rintro ⟨habove, htotal⟩
      exact ⟨fun initial hinitial ↦ habove initial ((List.mem_inits _ _).mpr hinitial), htotal⟩
    · rintro ⟨habove, htotal⟩
      exact ⟨fun initial hinitial ↦ habove initial ((List.mem_inits _ _).mp hinitial), htotal⟩

theorem StaysAbove.head {opened : Nat} {step : Step} {steps : List Step}
    (habove : StaysAbove opened (step :: steps)) : exits [step] ≤ calls [step] + opened :=
  habove [step] (List.cons_prefix_cons.mpr ⟨rfl, List.nil_prefix⟩)

/-- After the first step, the others stay above the frames that can be left then. -/
theorem StaysAbove.tail {opened later : Nat} {step : Step} {steps : List Step}
    (habove : StaysAbove opened (step :: steps))
    (hlater : later + exits [step] = opened + calls [step]) : StaysAbove later steps := by
  intro initial hinitial
  have hstep := habove (step :: initial) (List.cons_prefix_cons.mpr ⟨rfl, hinitial⟩)
  rw [calls_cons, exits_cons] at hstep
  omega

namespace Machine

/-- Runs the instruction of a step. -/
def perform (machine : Machine) (step : Step) : Machine :=
  machine.advance step.index step.instruction step.facts

/-- Runs the instructions of some steps, one after the other. -/
def performAll (machine : Machine) (steps : List Step) : Machine :=
  steps.foldl perform machine

/-- A step that does not leave more frames than were opened keeps the frames below waiting. -/
theorem callers_perform (machine : Machine) (step : Step) (opened waiting : List Frame)
    (hcallers : machine.callers = opened ++ waiting)
    (habove : exits [step] ≤ calls [step] + opened.length) :
    ∃ left, (machine.perform step).callers = left ++ waiting ∧
      left.length + exits [step] = opened.length + calls [step] := by
  obtain ⟨next, hnext, hsame⟩ : ∃ next, Transition machine step.index step.instruction next ∧
      (machine.perform step).callers = next.callers :=
    ⟨_, machine.transition_transfer step.index step.instruction, rfl⟩
  rw [hsame]
  cases hnext with
  | stay hcall hexit =>
    refine ⟨opened, hcallers, ?_⟩
    simp [calls, exits, hcall, hexit]
  | enter hcall =>
    have hexit : step.instruction.isExit = false := by
      rw [← Bool.not_eq_true]
      intro hexit
      rw [isSubprogramCall_eq_false_of_isExit hexit] at hcall
      exact absurd hcall Bool.false_ne_true
    refine ⟨machine.frame :: opened, by rw [hcallers, List.cons_append], ?_⟩
    simp [calls, exits, hcall, hexit]
  | @leave hexit caller callers hleaves =>
    have hcall := isSubprogramCall_eq_false_of_isExit hexit
    cases opened with
    | nil => simp [calls, exits, hcall, hexit] at habove
    | cons frame opened =>
      rw [hleaves, List.cons_append, List.cons.injEq] at hcallers
      refine ⟨opened, hcallers.2, ?_⟩
      simp [calls, exits, hcall, hexit]
  | restart hexit hnone =>
    have hcall := isSubprogramCall_eq_false_of_isExit hexit
    have hempty : opened = [] := (List.append_eq_nil_iff.mp (hcallers.symm.trans hnone)).1
    simp [calls, exits, hcall, hexit, hempty] at habove

/-- Steps that never leave more frames than were opened keep the frames below waiting. -/
theorem callers_performAll (steps : List Step) (machine : Machine) (opened waiting : List Frame)
    (hcallers : machine.callers = opened ++ waiting) (habove : StaysAbove opened.length steps) :
    ∃ left, (machine.performAll steps).callers = left ++ waiting ∧
      left.length + exits steps = opened.length + calls steps := by
  induction steps generalizing machine opened with
  | nil => exact ⟨opened, hcallers, rfl⟩
  | cons step steps ih =>
    obtain ⟨middle, hmiddle, hstep⟩ :=
      machine.callers_perform step opened waiting hcallers habove.head
    obtain ⟨left, hleft, hrest⟩ :=
      ih (machine.perform step) middle hmiddle (habove.tail hstep)
    refine ⟨left, hleft, ?_⟩
    rw [calls_cons, exits_cons]
    omega

/-- A balanced body leaves the callers of the function that it runs in. -/
theorem callers_performAll_of_balanced (machine : Machine) {steps : List Step}
    (hsteps : Balanced steps) : (machine.performAll steps).callers = machine.callers := by
  obtain ⟨left, hleft, hcount⟩ :=
    callers_performAll steps machine [] machine.callers rfl hsteps.staysAbove
  have htotal := hsteps.total
  have hnone : left = [] := by
    apply List.eq_nil_of_length_eq_zero
    rw [List.length_nil] at hcount
    omega
  rw [hleft, hnone, List.nil_append]

/-- The machine just before the closing exit of a call: the call was taken, and then the body. -/
def throughBody (machine : Machine) (call : Step) (body : List Step) : Machine :=
  (machine.perform call).performAll body

/-- The machine in which a caller goes on after an exit that hands over a result. -/
def returned (caller : Machine) (exit : Step) (result : Option String) : Machine :=
  ((Machine.mk (caller.frame.resume exit.index result) caller.callers).locate exit.index
    exit.instruction.pc).learn exit.index exit.facts

/-- After a balanced call a caller goes on from its own frame. The body contributes the result and
nothing else. -/
theorem perform_exit_of_balanced (machine : Machine) {call exit : Step} {body : List Step}
    (hcall : call.instruction.isSubprogramCall = true) (hbody : Balanced body)
    (hexit : exit.instruction.isExit = true) :
    (machine.throughBody call body).perform exit =
      machine.returned exit ((machine.throughBody call body).frame.cell Slot.returnValue).value := by
  have hentered : (machine.perform call).callers = machine.frame :: machine.callers := by
    have hkind : call.instruction.jumpKind? = some .subprogramCall := by
      simpa [Instruction.isSubprogramCall] using hcall
    rw [perform, callers_advance, transfer, hkind]
  have hcallers : (machine.throughBody call body).callers = machine.frame :: machine.callers :=
    (callers_performAll_of_balanced _ hbody).trans hentered
  have hkind : exit.instruction.jumpKind? = some .exit := by
    simpa [Instruction.isExit] using hexit
  rw [perform, advance, transfer, hkind, hcallers]
  rfl

/-- What holds of a machine in which a caller goes on after an exit: all of it is as it was before
the call, but for the slots that the exit's own facts name and the registers that a subprogram may
change. -/
structure Restored (caller : Machine) (exit : Step) (result : Option String) (after : Machine) :
    Prop where
  depth : after.depth = caller.depth
  callers : after.callers = caller.callers
  /-- Every other slot is tracked if it was, with its value and its last writer, untouched. -/
  kept : ∀ slot, slot ≠ Slot.returnValue → slot ∉ Slot.arguments →
    (∀ fact ∈ exit.facts, fact.depth = caller.depth → fact.slot ≠ slot) →
    after.frame.tracks slot = caller.frame.tracks slot ∧
      after.frame.cell slot =
        ⟨(caller.frame.cell slot).value, .none, (caller.frame.cell slot).writer⟩
  returnValue :
    (∀ fact ∈ exit.facts, fact.depth = caller.depth → fact.slot ≠ Slot.returnValue) →
    after.frame.cell Slot.returnValue = ⟨result, .write, some exit.index⟩
  arguments : ∀ slot ∈ Slot.arguments,
    (∀ fact ∈ exit.facts, fact.depth = caller.depth → fact.slot ≠ slot) →
    after.frame.cell slot = ⟨none, .write, some exit.index⟩

/-- Facts about other frames and other slots leave a slot as the return left it. -/
theorem cell_returned (caller : Machine) (exit : Step) (result : Option String) {slot : Slot}
    (hfacts : ∀ fact ∈ exit.facts, fact.depth = caller.depth → fact.slot ≠ slot) :
    (caller.returned exit result).frame.cell slot =
        (caller.frame.resume exit.index result).cell slot ∧
      (caller.returned exit result).frame.tracks slot =
        (caller.frame.resume exit.index result).tracks slot := by
  have hnamed : ∀ fact ∈ exit.facts.filter (fun fact ↦ fact.depth == caller.depth),
      fact.slot ≠ slot := by
    intro fact hfact
    obtain ⟨hmem, hdepth⟩ := List.mem_filter.mp hfact
    exact hfacts fact hmem (by simpa using hdepth)
  exact ⟨Frame.cell_learn_of_forall_ne _ _ hnamed, Frame.tracks_learn_of_forall_ne _ _ hnamed⟩

theorem restored_returned (caller : Machine) (exit : Step) (result : Option String) :
    caller.Restored exit result (caller.returned exit result) where
  depth := rfl
  callers := rfl
  kept := by
    intro slot hresult hargument hfacts
    obtain ⟨hcell, htracks⟩ := caller.cell_returned exit result hfacts
    constructor
    · rw [htracks, Frame.tracks_resume]
      simp [hargument, beq_eq_false_iff_ne.mpr hresult]
    · rw [hcell, Frame.cell_resume, if_neg hargument, if_neg hresult]
  returnValue := by
    intro hfacts
    have houtside : Slot.returnValue ∉ Slot.arguments := by decide
    rw [(caller.cell_returned exit result hfacts).1, Frame.cell_resume, if_neg houtside,
      if_pos rfl]
  arguments := by
    intro slot hargument hfacts
    rw [(caller.cell_returned exit result hfacts).1, Frame.cell_resume, if_pos hargument]

/-- A balanced call restores its caller, and the machine after it depends on the call and its body
through the result alone. -/
theorem restored_of_balanced (machine : Machine) {call exit : Step} {body : List Step}
    (hcall : call.instruction.isSubprogramCall = true) (hbody : Balanced body)
    (hexit : exit.instruction.isExit = true) :
    machine.Restored exit ((machine.throughBody call body).frame.cell Slot.returnValue).value
        ((machine.throughBody call body).perform exit) ∧
      ∀ (call' : Step) (body' : List Step), call'.instruction.isSubprogramCall = true →
        Balanced body' →
        ((machine.throughBody call' body').frame.cell Slot.returnValue).value =
          ((machine.throughBody call body).frame.cell Slot.returnValue).value →
        (machine.throughBody call' body').perform exit =
          (machine.throughBody call body).perform exit := by
  rw [machine.perform_exit_of_balanced hcall hbody hexit]
  refine ⟨machine.restored_returned exit _, ?_⟩
  intro call' body' hcall' hbody' hresult
  rw [machine.perform_exit_of_balanced hcall' hbody' hexit, hresult]

/-- A jump on a line that reports a value of `r6` in the outermost frame. -/
def jumpStep (index : Nat) (kind : JumpKind) : Step :=
  ⟨index, ⟨none, ⟨0x85⟩, .jump ⟨kind, "", none, none⟩, ⟨0, 0⟩⟩,
    [⟨.register 6, "9", true, 0, ⟨0, 0⟩⟩]⟩

/-- A body that calls a helper and another subprogram, and so reports `r6` of its caller's frame. -/
def nestedBody : List Step :=
  [jumpStep 1 .helperCall, jumpStep 2 .subprogramCall, jumpStep 3 .exit]

theorem restored_of_balanced_nestedBody :
    (jumpStep 0 .subprogramCall).instruction.isSubprogramCall = true ∧ Balanced nestedBody ∧
      (jumpStep 4 .exit).instruction.isExit = true ∧
      initial.Restored (jumpStep 4 .exit)
        ((initial.throughBody (jumpStep 0 .subprogramCall) nestedBody).frame.cell
          Slot.returnValue).value
        ((initial.throughBody (jumpStep 0 .subprogramCall) nestedBody).perform
          (jumpStep 4 .exit)) :=
  ⟨rfl, by decide, rfl, (initial.restored_of_balanced rfl (by decide) rfl).1⟩

end Machine

end VerifierTrace

import VerifierTrace.Machine.Text

/-!
# Machines in a hasher

A `Hasher` takes octets in portions and makes a digest of all that it has taken; nothing else is
assumed of it here. A machine is put into it portion by portion: the running frame in one line, the
last writer of each slot that has one, and for every waiting caller, the outermost first, a bar and
the portions of the machine that waits there, its own callers included.

The portions together are the rendering of the machine (`Machine.join_portions`), and its octets are
the input of the fingerprint. A hasher that does not see where one portion ends and the next begins
digests them as if they came at once (`Machine.fingerprintWith_eq`).
-/

set_option autoImplicit false
set_option relaxedAutoImplicit false

namespace VerifierTrace

/-- What takes octets in portions and makes a digest of them. -/
structure Hasher (State Digest : Type) where
  start : State
  update : State → ByteArray → State
  finish : State → Digest

namespace Hasher

variable {State Digest : Type}

/-- Where the octets are cut into portions makes no difference. -/
def Concatenates (hasher : Hasher State Digest) : Prop :=
  ∀ state octets octets', hasher.update (hasher.update state octets) octets' =
    hasher.update state (octets ++ octets')

/-- Takes texts one after the other. -/
def updateAll (hasher : Hasher State Digest) (state : State) (portions : List String) : State :=
  portions.foldl (fun state portion ↦ hasher.update state portion.toUTF8) state

/-- Several texts are taken as if they were one. -/
theorem Concatenates.updateAll_cons {hasher : Hasher State Digest} (hhasher : hasher.Concatenates)
    (state : State) (portion : String) (portions : List String) :
    hasher.updateAll state (portion :: portions) =
      hasher.update state (String.join (portion :: portions)).toUTF8 := by
  induction portions generalizing portion with
  | nil => rw [String.join_cons, String.join_nil, String.append_empty]; rfl
  | cons next portions ih =>
    have hpair : hasher.update (hasher.update state portion.toUTF8) next.toUTF8 =
        hasher.update state (portion ++ next).toUTF8 := by
      rw [hhasher, String.toUTF8, String.toUTF8, String.toUTF8, String.toByteArray_append]
    calc hasher.updateAll state (portion :: next :: portions)
        = hasher.updateAll state ((portion ++ next) :: portions) :=
          congrArg (fun state ↦ hasher.updateAll state portions) hpair
      _ = hasher.update state (String.join ((portion ++ next) :: portions)).toUTF8 := ih _
      _ = hasher.update state (String.join (portion :: next :: portions)).toUTF8 := by
          rw [String.join_cons, String.join_cons, String.join_cons, String.append_assoc]

end Hasher

namespace Frame

/-- The portions of a frame at a depth: its line, and the last writer of each slot that has one. -/
def portions (frame : Frame) (depth : Nat) : List String :=
  frame.text depth :: (frame.cells.entries.filter fun entry ↦ entry.2.writer.isSome).map fun entry ↦
    entry.2.writerText entry.1

/-- The portions of the waiting callers, given the innermost first and taken the outermost first. -/
def callersPortions : List Frame → List String
  | [] => []
  | caller :: outside =>
    callersPortions outside ++ "|" :: (caller.portions outside.length ++ callersPortions outside)

/-- A slot without a writer has no portion and no text. -/
theorem join_portions (frame : Frame) (depth : Nat) :
    String.join (frame.portions depth) = frame.rendering depth := by
  rw [portions, String.join_cons, rendering]
  congr 1
  induction frame.cells.entries with
  | nil => rfl
  | cons entry entries ih =>
    rw [List.map_cons, String.join_cons, ← ih]
    cases hwriter : entry.2.writer with
    | some index =>
      rw [List.filter_cons_of_pos (by rw [hwriter]; rfl), List.map_cons, String.join_cons]
    | none =>
      have hnone : entry.2.writerText entry.1 = "" := by rw [Cell.writerText, hwriter]
      rw [List.filter_cons_of_neg (by rw [hwriter]; exact Bool.false_ne_true), hnone,
        String.empty_append]

theorem join_callersPortions (callers : List Frame) :
    String.join (callersPortions callers) = callersRendering callers := by
  induction callers with
  | nil => rfl
  | cons caller outside ih =>
    rw [callersPortions, callersRendering, String.join_append, String.join_cons, String.join_append,
      join_portions, ih, String.append_assoc, String.append_assoc]

end Frame

namespace Machine

/-- What a machine puts into a hasher, in the order in which it does. -/
def portions (machine : Machine) : List String :=
  machine.frame.portions machine.depth ++ Frame.callersPortions machine.callers

/-- The digest of a machine. -/
def fingerprintWith {State Digest : Type} (hasher : Hasher State Digest) (machine : Machine) :
    Digest :=
  hasher.finish (hasher.updateAll hasher.start machine.portions)

/-- The octets whose digest is the fingerprint. -/
def fingerprintInput (machine : Machine) : ByteArray :=
  machine.rendering.toUTF8

theorem join_portions (machine : Machine) : String.join machine.portions = machine.rendering := by
  rw [portions, String.join_append, Frame.join_portions, Frame.join_callersPortions, rendering]

/-- The digest of a machine depends on the octets of its rendering alone. -/
theorem fingerprintWith_eq {State Digest : Type} {hasher : Hasher State Digest}
    (hhasher : hasher.Concatenates) (machine : Machine) :
    machine.fingerprintWith hasher =
      hasher.finish (hasher.update hasher.start machine.fingerprintInput) := by
  obtain ⟨portion, portions, hportions⟩ :
      ∃ portion portions, machine.portions = portion :: portions := ⟨_, _, rfl⟩
  rw [fingerprintWith, hportions, hhasher.updateAll_cons, ← hportions, join_portions,
    fingerprintInput]

end Machine

end VerifierTrace

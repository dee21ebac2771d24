import VerifierTrace.Proofs.Log.Ledger
import VerifierTrace.Proofs.Log.Spread
import VerifierTrace.Proofs.Machine.Following

/-!
# The state as of a line

A log keeps a state for each line, and it is always the one that following the lines from the
initial machine leads to. `Log.IsNearest` names the last instruction at or before a line. The state
as of a line is the one that this instruction led to, and there is none before the first instruction
(`Built.stateAt?_is_nearest`). The states of a log are therefore no more than a record of one run,
and a log could be built again from its lines alone, also as a `Ledger`, whose tables have lengths
of their own.
-/

set_option autoImplicit false
set_option relaxedAutoImplicit false

namespace VerifierTrace

namespace Log

/-! ### The lines of a log -/

/-- The lines of a log in order, each with its index. -/
def numbered (log : Log) : List (Nat × Line) :=
  log.entries.toList.zipIdx.map fun (entry, index) ↦ (index, entry.line)

theorem getElem?_numbered (log : Log) (index : Nat) :
    log.numbered[index]? = (log.line? index).map (index, ·) := by
  rw [numbered, List.getElem?_map, List.getElem?_zipIdx, Array.getElem?_toList, line?,
    Option.map_map, Option.map_map, Nat.zero_add]
  rfl

theorem length_numbered (log : Log) : log.numbered.length = log.size := by
  rw [numbered, List.length_map, List.length_zipIdx, Array.length_toList, size]

theorem take_succ_numbered {log : Log} {index : Nat} {line : Line}
    (hline : log.line? index = some line) :
    log.numbered.take (index + 1) = log.numbered.take index ++ [(index, line)] := by
  rw [List.take_add_one, getElem?_numbered, hline]
  rfl

/-- The machine before a line is the one that following the lines before it leads to. -/
theorem Built.follow_take_numbered {log : Log} (hlog : log.Built) {index : Nat}
    (hindex : index ≤ log.size) :
    Machine.initial.follow (log.numbered.take index) = log.before index := by
  induction index with
  | zero => rfl
  | succ index ih =>
    obtain ⟨line, hline⟩ := line?_isSome hindex
    rw [take_succ_numbered hline, Machine.follow_concat, ih (Nat.le_of_succ_le hindex),
      Machine.read, before_succ, hlog.runs index line hline, before]
    cases hnext : ((log.stateBefore? index).getD .initial).next? index line with
    | none => rfl
    | some machine => rfl

/-! ### The nearest instruction -/

/-- The last of the instructions up to a line. -/
def IsNearest (log : Log) (index nearest : Nat) : Prop :=
  IsGreatest {line | line ≤ index ∧ (log.instruction? line).isSome = true} nearest

theorem isNearest_self {log : Log} {index : Nat}
    (hinstruction : (log.instruction? index).isSome = true) : log.IsNearest index index :=
  ⟨⟨Nat.le_refl index, hinstruction⟩, fun _ hline ↦ hline.1⟩

/-- A line that is no instruction has the nearest instruction of the line before it. -/
theorem IsNearest.succ {log : Log} {index nearest : Nat} (hnearest : log.IsNearest index nearest)
    (hnone : log.instruction? (index + 1) = none) : log.IsNearest (index + 1) nearest := by
  refine ⟨⟨Nat.le_succ_of_le hnearest.1.1, hnearest.1.2⟩, ?_⟩
  rintro line ⟨hline, hinstruction⟩
  have hother : line ≠ index + 1 := by
    rintro rfl
    rw [hnone] at hinstruction
    cases hinstruction
  exact hnearest.2 ⟨by omega, hinstruction⟩

theorem exists_isNearest_or_forall_eq_none (log : Log) (index : Nat) :
    (∃ nearest, log.IsNearest index nearest) ∨ ∀ line ≤ index, log.instruction? line = none := by
  induction index with
  | zero =>
    cases hfirst : log.instruction? 0 with
    | some instruction => exact Or.inl ⟨0, isNearest_self (by rw [hfirst]; rfl)⟩
    | none => exact Or.inr fun line hline ↦ by rwa [Nat.le_zero.mp hline]
  | succ index ih =>
    cases hlast : log.instruction? (index + 1) with
    | some instruction => exact Or.inl ⟨index + 1, isNearest_self (by rw [hlast]; rfl)⟩
    | none =>
      rcases ih with ⟨nearest, hnearest⟩ | hnone
      · exact Or.inl ⟨nearest, hnearest.succ hlast⟩
      · refine Or.inr fun line hline ↦ ?_
        rcases Nat.le_succ_iff.mp hline with hearlier | rfl
        · exact hnone line hearlier
        · exact hlast

section States

variable {log : Log} (hlog : log.Built)

include hlog

/-- The state as of a line is the one that the nearest instruction led to. -/
theorem Built.stateAt?_of_isNearest {index nearest : Nat} (hindex : index < log.size)
    (hnearest : log.IsNearest index nearest) : log.stateAt? index = log.stateAt? nearest := by
  refine hlog.stateBefore?_of_none (Nat.succ_le_succ hnearest.1.1) hindex fun line hafter hline ↦ ?_
  by_contra hinstruction
  have hle := hnearest.2 ⟨Nat.le_of_lt_succ hline, Option.isSome_iff_ne_none.mpr hinstruction⟩
  exact Nat.not_lt.mpr hle hafter

theorem Built.stateAt?_eq_none {index : Nat} (hindex : index < log.size)
    (hnone : ∀ line ≤ index, log.instruction? line = none) : log.stateAt? index = none :=
  hlog.stateBefore?_of_none (Nat.zero_le _) hindex fun line _ hline ↦
    hnone line (Nat.le_of_lt_succ hline)

/-- An instruction advances the machine that the lines before it lead to. -/
theorem Built.next?_of_isInstruction {index : Nat}
    (hinstruction : (log.instruction? index).isSome = true) :
    ∃ line machine, log.line? index = some line ∧
      (Machine.initial.follow (log.numbered.take index)).next? index line = some machine ∧
      Machine.initial.follow (log.numbered.take (index + 1)) = machine ∧
      machine.frame.line = some index ∧ log.stateAt? index = some machine := by
  obtain ⟨instruction, hsome⟩ := Option.isSome_iff_exists.mp hinstruction
  obtain ⟨line, hline, hread⟩ := Option.bind_eq_some_iff.mp hsome
  have hindex : index < log.size := lt_size_of_line? hline
  have hnext : (log.before index).next? index line =
      some ((log.before index).advance index instruction line.facts) := by
    rw [Machine.next?_eq_map, hread]
    rfl
  refine ⟨line, (log.before index).advance index instruction line.facts, hline, ?_, ?_,
    Machine.line_advance _ _ _ _, ?_⟩
  · rw [hlog.follow_take_numbered (Nat.le_of_lt hindex)]
    exact hnext
  · rw [take_succ_numbered hline, Machine.follow_concat,
      hlog.follow_take_numbered (Nat.le_of_lt hindex), Machine.read_of_instruction _ _ hread]
  · rw [hlog.runs index line hline, hnext, Option.some_or]

/-- A state as of a line comes from the nearest instruction. -/
theorem Built.exists_isNearest_of_stateAt? {index : Nat} (hindex : index < log.size)
    {machine : Machine} (hmachine : log.stateAt? index = some machine) :
    ∃ nearest line, log.IsNearest index nearest ∧ log.line? nearest = some line ∧
      (Machine.initial.follow (log.numbered.take nearest)).next? nearest line = some machine ∧
      Machine.initial.follow (log.numbered.take (nearest + 1)) = machine ∧
      machine.frame.line = some nearest := by
  rcases log.exists_isNearest_or_forall_eq_none index with ⟨nearest, hnearest⟩ | hnone
  · obtain ⟨line, next, hline, hnext, hfollow, hstands, hstate⟩ :=
      hlog.next?_of_isInstruction hnearest.1.2
    have hsame : next = machine := by
      rw [hlog.stateAt?_of_isNearest hindex hnearest, hstate] at hmachine
      exact Option.some.inj hmachine
    rw [← hsame]
    exact ⟨nearest, line, hnearest, hline, hnext, hfollow, hstands⟩
  · rw [hlog.stateAt?_eq_none hindex hnone] at hmachine
    cases hmachine

theorem Built.stateAt?_eq_none_iff {index : Nat} (hindex : index < log.size) :
    log.stateAt? index = none ↔ ∀ line ≤ index, log.instruction? line = none := by
  refine ⟨fun hstate ↦ ?_, hlog.stateAt?_eq_none hindex⟩
  rcases log.exists_isNearest_or_forall_eq_none index with ⟨nearest, hnearest⟩ | hnone
  · obtain ⟨_, _, -, -, -, -, hsome⟩ := hlog.next?_of_isInstruction hnearest.1.2
    rw [hlog.stateAt?_of_isNearest hindex hnearest, hsome] at hstate
    cases hstate
  · exact hnone

theorem Built.current_eq_follow : log.current = Machine.initial.follow log.numbered := by
  rw [current_eq_before_size, ← hlog.follow_take_numbered (Nat.le_refl _), ← length_numbered,
    List.take_length]

/-- The running state is the one after the last instruction. -/
theorem Built.current_of_last :
    (∀ line, log.instruction? line = none) ∧ log.current = .initial ∨
      ∃ last, IsGreatest {line | (log.instruction? line).isSome = true} last ∧
        log.stateAt? last = some log.current := by
  have houtside : ∀ line, log.size ≤ line → log.instruction? line = none := fun line hline ↦ by
    rw [instruction?, line?_eq_none_of_size_le hline, Option.bind_none]
  cases hsize : log.size with
  | zero =>
    refine Or.inl ⟨fun line ↦ houtside line (by omega), ?_⟩
    rw [current_eq_before_size, hsize, before_zero]
  | succ last =>
    rw [current_eq_before_size, hsize, before_succ]
    rcases log.exists_isNearest_or_forall_eq_none last with ⟨nearest, hnearest⟩ | hnone
    · refine Or.inr ⟨nearest, ⟨hnearest.1.2, fun line hline ↦ ?_⟩, ?_⟩
      · obtain ⟨instruction, hinstruction⟩ := Option.isSome_iff_exists.mp hline
        have hlt := lt_size_of_instruction? hinstruction
        exact hnearest.2 ⟨by omega, hline⟩
      · obtain ⟨_, machine, -, -, -, -, hstate⟩ := hlog.next?_of_isInstruction hnearest.1.2
        rw [hlog.stateAt?_of_isNearest (by omega) hnearest, hstate, Option.getD_some]
    · refine Or.inl ⟨fun line ↦ ?_, ?_⟩
      · by_cases hline : line ≤ last
        · exact hnone line hline
        · exact houtside line (by omega)
      · rw [hlog.stateAt?_eq_none (by omega) hnone, Option.getD_none]

end States

theorem stateAt?_eq_none_of_size_le {log : Log} {index : Nat} (hindex : log.size ≤ index) :
    log.stateAt? index = none := by
  rw [stateAt?, Array.getElem?_eq_none hindex, Option.bind_none]

/-- As of a line there is no state exactly when no instruction stands at or before it. Otherwise the
state is the one that the nearest instruction led to when the lines up to it were followed from the
initial machine, and it remembers the index of that instruction. There are no states beyond the last
line, the running state is the one after the last instruction, if there was one, and a line that is
pushed stands at the index that is answered. A ledger, which keeps every state once and for every
line the place of its state, gives the same answers. -/
theorem Built.stateAt?_is_nearest {log : Log} (hlog : log.Built) :
    (∀ index < log.size,
      (log.stateAt? index = none ↔ ∀ line ≤ index, log.instruction? line = none) ∧
      ∀ machine, log.stateAt? index = some machine →
        ∃ nearest line, log.IsNearest index nearest ∧ log.line? nearest = some line ∧
          (Machine.initial.follow (log.numbered.take nearest)).next? nearest line = some machine ∧
          Machine.initial.follow (log.numbered.take (nearest + 1)) = machine ∧
          machine.frame.line = some nearest) ∧
    (∀ index, log.size ≤ index → log.stateAt? index = none) ∧
    log.current = Machine.initial.follow log.numbered ∧
    ((∀ line, log.instruction? line = none) ∧ log.current = .initial ∨
      ∃ last, IsGreatest {line | (log.instruction? line).isSome = true} last ∧
        log.stateAt? last = some log.current) ∧
    (∀ text, (log.pushLine text).2.line? (log.pushLine text).1 = some (Line.ofText text)) ∧
    log.ledger.lines.size = log.size ∧ log.ledger.nearest.size = log.size ∧
    (∀ index, log.ledger.stateAt? index = log.stateAt? index) ∧
    log.ledger.current = log.current := by
  refine ⟨fun index hindex ↦ ⟨hlog.stateAt?_eq_none_iff hindex,
    fun machine ↦ hlog.exists_isNearest_of_stateAt? hindex⟩,
    fun index ↦ stateAt?_eq_none_of_size_le, hlog.current_eq_follow, hlog.current_of_last,
    fun text ↦ ?_, hlog.tabulates.size_lines, hlog.tabulates.size_nearest,
    hlog.tabulates.stateAt?_eq, hlog.tabulates.current⟩
  rw [pushLine, line?_push, if_pos rfl]

/-- As of a source comment the state is the one of an instruction before it. -/
theorem stateAt?_is_nearest_callAndReturn :
    callAndReturn.Built ∧ 5 < callAndReturn.size ∧ callAndReturn.instruction? 5 = none ∧
      ∃ machine, callAndReturn.stateAt? 5 = some machine ∧
        ∃ nearest line, callAndReturn.IsNearest 5 nearest ∧
          callAndReturn.line? nearest = some line ∧
          (Machine.initial.follow (callAndReturn.numbered.take nearest)).next? nearest line =
            some machine ∧
          Machine.initial.follow (callAndReturn.numbered.take (nearest + 1)) = machine ∧
          machine.frame.line = some nearest := by
  have hindex : 5 < callAndReturn.size := by decide +kernel
  have hstate : (callAndReturn.stateAt? 5).isSome = true := by decide +kernel
  obtain ⟨machine, hmachine⟩ := Option.isSome_iff_exists.mp hstate
  exact ⟨built_callAndReturn, hindex, by decide +kernel, machine, hmachine,
    ((Built.stateAt?_is_nearest built_callAndReturn).1 5 hindex).2 machine hmachine⟩

end Log

end VerifierTrace

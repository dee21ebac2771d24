import VerifierTrace.Proofs.Log.LastWriter

/-!
# Text that arrives in pieces

A log that is fed ends up where the characters lead, one after the other, whatever the buffer was
cut into on the way. So feeding one text after another is feeding them as one (`feed_feed`),
wherever the cut between them falls. What a log makes of a text is said by a `LineCut`: the text is
cut after each line feed, every complete line is pushed with the line feed that ends it, and what
follows the last line feed waits. The text that waited before counts to the text that is fed,
because no line feed is ever held back (`Built.lineFeed_notMem_pending`).

`Built.feed_is_action` puts this together: no text is refused, the texts act on the logs as a
monoid, and a text that is fed as a whole and finished is the same as its lines, pushed one by one.
-/

set_option autoImplicit false
set_option relaxedAutoImplicit false

namespace VerifierTrace

/-- A text cut after every line feed: the complete lines without the line feeds that end them, and
what follows the last line feed. -/
structure LineCut where
  complete : List (List Char)
  rest : List Char
  isLine : ∀ line ∈ complete, '\n' ∉ line
  isOpen : '\n' ∉ rest

namespace LineCut

/-- The complete lines with their line feeds. -/
def lines (cut : LineCut) : List String :=
  cut.complete.map fun line ↦ String.ofList (line ++ ['\n'])

/-- The text that is cut. -/
def text (cut : LineCut) : String :=
  String.join cut.lines ++ String.ofList cut.rest

/-- The complete lines, and the rest as the last piece unless it is empty. -/
def pieces (cut : LineCut) : List String :=
  cut.lines ++ if cut.rest = [] then [] else [String.ofList cut.rest]

/-- Puts a character in front of a text that is cut. -/
theorem exists_text_cons (c : Char) (cut : LineCut) :
    ∃ longer : LineCut, longer.text = String.singleton c ++ cut.text := by
  obtain ⟨complete, rest, hlines, hopen⟩ := cut
  by_cases hfeed : c = '\n'
  · refine ⟨⟨[] :: complete, rest, ?_, hopen⟩, ?_⟩
    · exact List.forall_mem_cons.mpr ⟨List.not_mem_nil, hlines⟩
    · rw [← String.toList_inj]
      simp [text, lines, hfeed]
  · cases complete with
    | nil =>
      refine ⟨⟨[], c :: rest, hlines, ?_⟩, ?_⟩
      · exact List.not_mem_cons_of_ne_of_not_mem (Ne.symm hfeed) hopen
      · rw [← String.toList_inj]
        simp [text, lines]
    | cons line complete =>
      obtain ⟨hline, hothers⟩ := List.forall_mem_cons.mp hlines
      refine ⟨⟨(c :: line) :: complete, rest, ?_, hopen⟩, ?_⟩
      · exact List.forall_mem_cons.mpr
          ⟨List.not_mem_cons_of_ne_of_not_mem (Ne.symm hfeed) hline, hothers⟩
      · rw [← String.toList_inj]
        simp [text, lines]

/-- Every text can be cut after its line feeds. -/
theorem exists_text_eq (text : String) : ∃ cut : LineCut, cut.text = text := by
  suffices ∀ characters : List Char, ∃ cut : LineCut, cut.text.toList = characters by
    obtain ⟨cut, hcut⟩ := this text.toList
    exact ⟨cut, String.toList_inj.mp hcut⟩
  intro characters
  induction characters with
  | nil => exact ⟨⟨[], [], by simp, by simp⟩, by simp [LineCut.text, lines]⟩
  | cons c characters ih =>
    obtain ⟨cut, hcut⟩ := ih
    obtain ⟨longer, hlonger⟩ := cut.exists_text_cons c
    exact ⟨longer, by rw [hlonger, String.toList_append, hcut, String.toList_singleton]; rfl⟩

end LineCut

namespace Log

/-! ### One text after another -/

theorem feed_feed (log : Log) (first second : String) :
    (log.feed first).feed second = log.feed (first ++ second) := by
  simp only [feed_eq_foldl_receive, String.toList_append, List.foldl_append]

theorem feed_empty (log : Log) : log.feed "" = log := by
  rw [feed_eq_foldl_receive]
  rfl

theorem finish_finish (log : Log) : log.finish.finish = log.finish := by
  by_cases hpending : log.pending.isEmpty
  · have hsame : log.finish = log := if_pos hpending
    rw [hsame, hsame]
  · have hflushed : log.finish = { log.push log.pending with pending := "" } := if_neg hpending
    rw [hflushed]
    rfl

/-! ### Lines of a text -/

/-- A line that is pushed leaves the waiting text alone. -/
theorem pending_push (log : Log) (text : String) : (log.push text).pending = log.pending := rfl

theorem pending_foldl_push (log : Log) (lines : List String) :
    (lines.foldl push log).pending = log.pending := by
  induction lines generalizing log with
  | nil => rfl
  | cons line lines ih => exact ih (log.push line)

theorem with_pending_of_eq {log : Log} {pending : String} (hpending : log.pending = pending) :
    { log with pending } = log := by
  rw [← hpending]

/-- The waiting text has no part in reading a complete line. -/
theorem push_with_pending (log : Log) (pending text : String) :
    ({ log with pending } : Log).push text = { log.push text with pending } := by
  have hcurrent : ({ log with pending } : Log).current = log.current := rfl
  simp only [push, hcurrent]
  rfl

theorem foldl_push_with_pending (log : Log) (pending : String) (lines : List String) :
    lines.foldl push { log with pending } = { lines.foldl push log with pending } := by
  induction lines generalizing log with
  | nil => rfl
  | cons line lines ih =>
    rw [List.foldl_cons, List.foldl_cons, push_with_pending]
    exact ih (log.push line)

/-- Text without a line feed waits. -/
theorem feed_of_notMem (log : Log) {text : List Char} (htext : '\n' ∉ text) :
    log.feed (String.ofList text) =
      { log with pending := log.pending ++ String.ofList text } := by
  rw [feed_eq_foldl_receive, String.toList_ofList]
  exact foldl_receive_of_notMem log htext

/-- A line feed completes the waiting text to a line. -/
theorem feed_line (log : Log) {line : List Char} (hline : '\n' ∉ line) :
    log.feed (String.ofList (line ++ ['\n'])) =
      { log.push (log.pending ++ String.ofList (line ++ ['\n'])) with pending := "" } := by
  rw [feed_eq_foldl_receive, String.toList_ofList]
  exact foldl_receive_line log hline

/-- Where no text waits, complete lines are pushed as they are. -/
theorem feed_join_lines (log : Log) (hpending : log.pending = "") (cut : LineCut) :
    log.feed (String.join cut.lines) = cut.lines.foldl push log := by
  obtain ⟨complete, rest, hlines, hopen⟩ := cut
  simp only [LineCut.lines]
  induction complete generalizing log with
  | nil => exact feed_empty log
  | cons line complete ih =>
    obtain ⟨hline, hothers⟩ := List.forall_mem_cons.mp hlines
    have hpush : log.feed (String.ofList (line ++ ['\n'])) =
        log.push (String.ofList (line ++ ['\n'])) := by
      rw [feed_line log hline, hpending, String.empty_append]
      exact with_pending_of_eq ((pending_push log _).trans hpending)
    rw [List.map_cons, String.join_cons, ← feed_feed, hpush, List.foldl_cons]
    exact ih (log.push _) ((pending_push log _).trans hpending) hothers

/-- Where no text waits, a text leaves its complete lines in the log and its rest waiting. -/
theorem feed_text (log : Log) (hpending : log.pending = "") (cut : LineCut) :
    log.feed cut.text =
      { cut.lines.foldl push log with pending := String.ofList cut.rest } := by
  rw [LineCut.text, ← feed_feed, feed_join_lines log hpending, feed_of_notMem _ cut.isOpen,
    pending_foldl_push, hpending, String.empty_append]

/-- What waits at the end is the last line, unless it is empty. -/
theorem finish_with_pending (log : Log) (hpending : log.pending = "") (rest : List Char) :
    ({ log with pending := String.ofList rest } : Log).finish =
      (if rest = [] then [] else [String.ofList rest]).foldl push log := by
  by_cases hrest : rest = []
  · rw [if_pos hrest, hrest, with_pending_of_eq hpending]
    exact if_pos (String.isEmpty_iff.mpr hpending)
  · have hwaits : ¬ (String.ofList rest).isEmpty := by
      rw [String.isEmpty_iff, ← String.toList_eq_nil_iff, String.toList_ofList]
      exact hrest
    rw [if_neg hrest, finish, if_neg hwaits]
    exact with_pending_of_eq ((pending_push log _).trans hpending)

/-! ### The waiting text -/

theorem lineFeed_notMem_pending_receive (log : Log) (hpending : '\n' ∉ log.pending.toList)
    (c : Char) : '\n' ∉ (log.receive c).pending.toList := by
  unfold receive
  split
  · simp
  · rename_i hc
    simpa [Ne.symm hc] using hpending

theorem lineFeed_notMem_pending_feed (log : Log) (hpending : '\n' ∉ log.pending.toList)
    (text : String) : '\n' ∉ (log.feed text).pending.toList := by
  rw [feed_eq_foldl_receive]
  induction text.toList generalizing log with
  | nil => exact hpending
  | cons c text ih => exact ih _ (lineFeed_notMem_pending_receive log hpending c)

/-- No line feed waits: it would have completed its line. -/
theorem Built.lineFeed_notMem_pending {log : Log} (hlog : log.Built) :
    '\n' ∉ log.pending.toList := by
  induction hlog with
  | empty maxDepth => simp [Log.empty]
  | push _ text ih => exact ih
  | feed _ text ih => exact lineFeed_notMem_pending_feed _ ih text
  | finish _ ih =>
    unfold Log.finish
    split
    · exact ih
    · simp
  | read deliveries hread =>
    have hnone : '\n' ∉ (Log.empty defaultMaxDepth).pending.toList := by simp [Log.empty]
    exact Intake.run_induction (motive := fun log ↦ '\n' ∉ log.pending.toList)
      (fun _ _ hpending ↦ hpending) deliveries .start hnone hread

/-- What a log holds back is fed again with the text that follows it. -/
theorem Built.feed_pending {log : Log} (hlog : log.Built) (text : String) :
    log.feed text = ({ log with pending := "" } : Log).feed (log.pending ++ text) := by
  have hheld : ({ log with pending := "" } : Log).feed log.pending = log := by
    have hwaits := feed_of_notMem { log with pending := "" } hlog.lineFeed_notMem_pending
    rw [String.ofList_toList, String.empty_append] at hwaits
    exact hwaits
  rw [← feed_feed, hheld]

/-- No text is refused, however the buffer is cut. The texts act on the logs as a monoid: feeding
two texts one after the other is feeding them as one, and feeding no text changes nothing. A text is
cut after its line feeds, together with what waited before it; the complete lines are pushed in
order and the rest waits. So where nothing waits, feeding a text and finishing is pushing its lines.
Finishing again changes nothing. -/
theorem Built.feed_is_action {log : Log} (hlog : log.Built) :
    (∀ text, log.feed? text = some (log.feed text)) ∧
    (∀ first second, (log.feed first).feed second = log.feed (first ++ second)) ∧
    log.feed "" = log ∧
    (∀ text, ∃ cut : LineCut, cut.text = log.pending ++ text ∧
      log.feed text = { cut.lines.foldl Log.push log with pending := String.ofList cut.rest }) ∧
    (log.pending = "" → ∀ text, ∃ cut : LineCut, cut.text = text ∧
      (log.feed text).finish = cut.pieces.foldl Log.push log) ∧
    ∀ text, (log.feed text).finish.finish = (log.feed text).finish := by
  refine ⟨log.feed?_eq_feed, log.feed_feed, log.feed_empty, fun text ↦ ?_,
    fun hpending text ↦ ?_, fun text ↦ finish_finish _⟩
  · obtain ⟨cut, hcut⟩ := LineCut.exists_text_eq (log.pending ++ text)
    refine ⟨cut, hcut, ?_⟩
    rw [hlog.feed_pending, ← hcut, feed_text _ rfl, foldl_push_with_pending]
  · obtain ⟨cut, hcut⟩ := LineCut.exists_text_eq text
    refine ⟨cut, hcut, ?_⟩
    rw [← hcut, feed_text log hpending,
      finish_with_pending _ ((pending_foldl_push log _).trans hpending), ← List.foldl_append]
    rfl

/-- A log at the end of a line takes in a line and the beginning of another. -/
theorem feed_is_action_callAndReturn :
    callAndReturn.Built ∧ callAndReturn.pending = "" ∧
      (callAndReturn.feed? "4: (b7) r0 = 0\n5: (9").isSome ∧
      ∃ cut : LineCut, cut.text = "4: (b7) r0 = 0\n5: (95) exit" ∧
        ((callAndReturn.feed "4: (b7) r0 = 0\n5: (9").feed "5) exit").finish =
          cut.pieces.foldl push callAndReturn := by
  obtain ⟨hsome, hjoin, -, -, hpieces, -⟩ := built_callAndReturn.feed_is_action
  obtain ⟨cut, hcut, hfinished⟩ := hpieces rfl "4: (b7) r0 = 0\n5: (95) exit"
  refine ⟨built_callAndReturn, rfl, ?_, cut, hcut, ?_⟩
  · rw [hsome]
    rfl
  · rw [hjoin]
    exact hfinished

end Log

end VerifierTrace

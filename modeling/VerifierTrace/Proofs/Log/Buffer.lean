import VerifierTrace.Log.Feeding

/-!
# What becomes of a buffer

A log that is fed takes its lines out of a buffer by two positions. The buffer is then cut into
three parts (`Feeding.Cut`): what has been read as lines, what waits and has been searched, and what
is still unseen. When a line feed is among the unseen characters, one turn of the loop reads the
line that it ends, and the three parts are those before and after it (`Feeding.takeLine?_eq`). When
there is none, the loop ends and everything that has not been read waits.

The outcome is that of a log that takes the characters one at a time (`Log.receive`). Neither the
position where the search begins nor the cuts of the buffer leave a trace in it: no cut is refused,
and the loop ends with the log that a fold over the characters leads to (`Log.feed?_eq_some`).
-/

set_option autoImplicit false
set_option relaxedAutoImplicit false

namespace VerifierTrace

/-! ### Line feeds -/

theorem lineFeed?_eq_none {text : List Char} (hnone : '\n' ∉ text) : lineFeed? text = none := by
  induction text with
  | nil => rfl
  | cons c text ih =>
    obtain ⟨hc, hothers⟩ := List.ne_and_not_mem_of_not_mem_cons hnone
    rw [lineFeed?, if_neg (Ne.symm hc), ih hothers, Option.map_none]

theorem lineFeed?_append {line : List Char} (hline : '\n' ∉ line) (later : List Char) :
    lineFeed? (line ++ '\n' :: later) = some (octets line) := by
  induction line with
  | nil => rfl
  | cons c line ih =>
    obtain ⟨hc, hothers⟩ := List.ne_and_not_mem_of_not_mem_cons hline
    rw [List.cons_append, lineFeed?, if_neg (Ne.symm hc), ih hothers, Option.map_some, octets_cons]

/-! ### One character at a time -/

namespace Log

/-- Reads one character. -/
def receive (log : Log) (c : Char) : Log :=
  if c = '\n' then { log.push (log.pending.push c) with pending := "" }
  else { log with pending := log.pending.push c }

/-- Text without a line feed waits. -/
theorem foldl_receive_of_notMem (log : Log) {text : List Char} (htext : '\n' ∉ text) :
    text.foldl receive log = { log with pending := log.pending ++ String.ofList text } := by
  induction text generalizing log with
  | nil => simp
  | cons c text ih =>
    obtain ⟨hc, hothers⟩ := List.ne_and_not_mem_of_not_mem_cons htext
    have hreceive : log.receive c = { log with pending := log.pending.push c } :=
      if_neg (Ne.symm hc)
    have hjoin : log.pending.push c ++ String.ofList text =
        log.pending ++ String.ofList (c :: text) := by
      rw [← String.toList_inj]
      simp
    rw [List.foldl_cons, hreceive, ih _ hothers, hjoin]

/-- A line feed completes the waiting text to a line. -/
theorem foldl_receive_line (log : Log) {line : List Char} (hline : '\n' ∉ line) :
    (line ++ ['\n']).foldl receive log =
      { log.push (log.pending ++ String.ofList (line ++ ['\n'])) with pending := "" } := by
  have hjoin : (log.pending ++ String.ofList line).push '\n' =
      log.pending ++ String.ofList (line ++ ['\n']) := by
    rw [← String.toList_inj]
    simp
  rw [List.foldl_append, foldl_receive_of_notMem log hline, ← hjoin]
  rfl

end Log

/-! ### Turns of the loop -/

namespace Feeding

/-- The buffer is what has been read as lines, what waits, and what is unseen. -/
structure Cut (feeding : Feeding) (read waiting unseen : List Char) : Prop where
  buffer_eq : feeding.buffer = read ++ (waiting ++ unseen)
  start_eq : feeding.start = octets read
  scan_eq : feeding.scan = octets read + octets waiting

theorem cut_ofText (log : Log) (text : String) :
    (ofText log text).Cut [] log.pending.toList text.toList where
  buffer_eq := rfl
  start_eq := rfl
  scan_eq := (Nat.zero_add _).symm

namespace Cut

variable {feeding : Feeding} {read waiting unseen : List Char}

theorem unseen?_eq (hcut : feeding.Cut read waiting unseen) : feeding.unseen? = some unseen := by
  rw [Feeding.unseen?, hcut.scan_eq, hcut.buffer_eq, ← octets_append, ← List.append_assoc]
  exact dropOctets?_octets_append _ unseen

/-- The line that a line feed ends is what waited and what was unseen before the line feed. -/
theorem takeLine?_eq {line later : List Char}
    (hcut : feeding.Cut read waiting (line ++ '\n' :: later)) :
    ∃ next : Feeding, feeding.takeLine? (octets line) = some next ∧
      next.log = feeding.log.push (String.ofList (waiting ++ (line ++ ['\n']))) ∧
      next.Cut (read ++ (waiting ++ (line ++ ['\n']))) [] later := by
  have hspan : Span.between feeding.start (feeding.scan + octets line + 1) =
      ⟨octets read, octets (waiting ++ (line ++ ['\n']))⟩ := by
    rw [Span.between, hcut.start_eq, hcut.scan_eq]
    have hfeed : '\n'.utf8Size = 1 := rfl
    simp only [octets_append, octets_cons, octets_nil, hfeed]
    congr 1
    omega
  have hbuffer : feeding.buffer = read ++ ((waiting ++ (line ++ ['\n'])) ++ later) := by
    rw [hcut.buffer_eq]
    simp
  have hline : (Span.between feeding.start (feeding.scan + octets line + 1)).cut? feeding.buffer =
      some (waiting ++ (line ++ ['\n'])) := by
    rw [hspan, hbuffer]
    exact Span.cut?_append _ _ _
  have hstop : feeding.scan + octets line + 1 = octets (read ++ (waiting ++ (line ++ ['\n']))) := by
    rw [hcut.scan_eq]
    have hfeed : '\n'.utf8Size = 1 := rfl
    simp only [octets_append, octets_cons, octets_nil, hfeed]
    omega
  refine ⟨_, congrArg (Option.map _) hline, rfl, ?_, hstop, hstop⟩
  exact hbuffer.trans (List.append_assoc _ _ _).symm

/-- Where no line feed is unseen, the loop ends, and what has not been read waits. -/
theorem drain?_run?_of_notMem (hcut : feeding.Cut read waiting unseen) (hnone : '\n' ∉ unseen) :
    feeding.run?.bind drain? =
      some { feeding.log with pending := String.ofList (waiting ++ unseen) } := by
  have hrun : feeding.run? = some feeding := by
    rw [run?_eq, hcut.unseen?_eq, Option.bind_some, lineFeed?_eq_none hnone]
  have hrest : dropOctets? feeding.start feeding.buffer = some (waiting ++ unseen) := by
    rw [hcut.start_eq, hcut.buffer_eq]
    exact dropOctets?_octets_append read _
  rw [hrun, Option.bind_some, drain?, hrest, Option.map_some]

/-- Where a line feed is unseen, the loop goes on after the line that it ends. -/
theorem run?_eq_of_takeLine? {line later : List Char} {next : Feeding} (hline : '\n' ∉ line)
    (hcut : feeding.Cut read waiting (line ++ '\n' :: later))
    (hnext : feeding.takeLine? (octets line) = some next) : feeding.run? = next.run? := by
  rw [run?_eq, hcut.unseen?_eq, Option.bind_some, lineFeed?_append hline later]
  dsimp only
  rw [hnext, Option.bind_some]

/-- The loop ends with the log that the unseen characters lead to, one after the other. The
induction is on the number of unseen characters, of which every turn sees some. -/
theorem drain?_run?_eq (hcut : feeding.Cut read waiting unseen) :
    feeding.run?.bind drain? =
      some (unseen.foldl Log.receive
        { feeding.log with pending := String.ofList waiting }) := by
  induction hlength : unseen.length using Nat.strongRecOn
    generalizing feeding read waiting unseen with
  | ind length ih =>
    by_cases hmem : '\n' ∈ unseen
    · obtain ⟨line, later, rfl, hline⟩ := List.eq_append_cons_of_mem hmem
      obtain ⟨next, hnext, hlog, hlater⟩ := hcut.takeLine?_eq
      have hshorter : later.length < length := by
        rw [← hlength, List.length_append, List.length_cons]
        omega
      have hsplit : line ++ '\n' :: later = (line ++ ['\n']) ++ later := by simp
      rw [hcut.run?_eq_of_takeLine? hline hnext, ih later.length hshorter hlater rfl, hlog, hsplit,
        List.foldl_append, Log.foldl_receive_line _ hline, ← String.ofList_append]
      rfl
    · rw [hcut.drain?_run?_of_notMem hmem, Log.foldl_receive_of_notMem _ hmem,
        ← String.ofList_append]

end Cut

end Feeding

namespace Log

/-- No piece of text is refused, and it leads where its characters lead, one after the other. -/
theorem feed?_eq_some (log : Log) (text : String) :
    log.feed? text = some (text.toList.foldl receive log) := by
  have hrun := (Feeding.cut_ofText log text).drain?_run?_eq
  rw [String.ofList_toList] at hrun
  exact hrun

theorem feed_eq_foldl_receive (log : Log) (text : String) :
    log.feed text = text.toList.foldl receive log := by
  rw [feed, feed?_eq_some, Option.getD_some]

theorem feed?_eq_feed (log : Log) (text : String) : log.feed? text = some (log.feed text) := by
  rw [feed?_eq_some, feed_eq_foldl_receive]

end Log

end VerifierTrace

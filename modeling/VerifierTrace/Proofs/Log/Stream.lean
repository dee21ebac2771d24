import VerifierTrace.Proofs.Log.Feeding
import VerifierTrace.Proofs.Text.Decoding

/-!
# Streams and texts

A log can be read from a stream of octets, which are decoded line by line, or be fed a text. Both
lead to the same log when the text is what the octets decode to as a whole
(`ofDeliveries_eq_feed_decode`), whatever is wrong with the octets and wherever the portions end in
which the stream delivers them. Octets that are those of a text lead where that text leads
(`ofDeliveries_toUTF8`). A stream that fails leaves no log, however much it delivered before.

What an intake holds back and what a log holds back are the same before and after decoding. So an
intake that goes on with some octets ends up where its log does when it is fed what was held back
together with them (`Intake.finish_foldl_receive`). The induction is over the octets: a line feed
completes the line on both sides, and any other octet joins what is held back.
-/

set_option autoImplicit false
set_option relaxedAutoImplicit false

namespace VerifierTrace

namespace Log

/-- Where no text waits, a complete line is pushed as it is. -/
theorem feed_append_lineFeed {log : Log} (hpending : log.pending = "") {text : String}
    (htext : '\n' ∉ text.toList) : log.feed (text ++ "\n") = log.push (text ++ "\n") := by
  have hline : String.ofList (text.toList ++ ['\n']) = text ++ "\n" := by
    rw [String.ofList_append, String.ofList_toList]
  have hfed := feed_line log htext
  rw [hline, hpending, String.empty_append] at hfed
  exact hfed.trans (with_pending_of_eq ((pending_push log _).trans hpending))

/-- No text waits in a finished log. -/
theorem pending_finish (log : Log) : log.finish.pending = "" := by
  unfold finish
  split
  · exact String.isEmpty_iff.mp ‹_›
  · rfl

end Log

namespace Intake

theorem receive_lineFeed (intake : Intake) :
    intake.receive 0x0A = ⟨intake.log.push (Utf8.decode intake.held.toList ++ "\n"), #[]⟩ := by
  rw [← Utf8.decode_concat_lineFeed]
  simp [receive, flush]

theorem receive_of_ne (intake : Intake) {octet : UInt8} (hoctet : octet ≠ 0x0A) :
    intake.receive octet = ⟨intake.log, intake.held.push octet⟩ := by
  simp [receive, hoctet]

/-- The octets that wait at the end are the last line, unless there are none. -/
theorem finish_eq_feed_finish (intake : Intake) (hpending : intake.log.pending = "")
    (hheld : 0x0A ∉ intake.held.toList) :
    intake.finish = (intake.log.feed (Utf8.decode intake.held.toList)).finish := by
  have hempty : (Utf8.decode intake.held.toList).toList = [] ↔ intake.held.isEmpty = true := by
    rw [String.toList_eq_nil_iff, Utf8.decode_eq_empty_iff, Array.toList_eq_nil_iff,
      Array.isEmpty_iff]
  have hfed := Log.feed_of_notMem intake.log (Utf8.lineFeed_notMem_decode hheld)
  rw [hpending, String.empty_append] at hfed
  rw [← String.ofList_toList (s := Utf8.decode _), hfed, Log.finish_with_pending _ hpending, finish]
  by_cases hnone : intake.held.isEmpty = true
  · rw [if_pos hnone, if_pos (hempty.mpr hnone)]
    rfl
  · rw [if_neg hnone, if_neg (fun htext ↦ hnone (hempty.mp htext)), String.ofList_toList]
    rfl

/-- Octets that go on from what is held back lead where their text leads. -/
theorem finish_foldl_receive (octets : List UInt8) (intake : Intake)
    (hpending : intake.log.pending = "") (hheld : 0x0A ∉ intake.held.toList) :
    (octets.foldl receive intake).finish =
      (intake.log.feed (Utf8.decode (intake.held.toList ++ octets))).finish := by
  induction octets generalizing intake with
  | nil =>
    rw [List.append_nil]
    exact intake.finish_eq_feed_finish hpending hheld
  | cons octet octets ih =>
    rw [List.foldl_cons]
    by_cases hoctet : octet = 0x0A
    · have hpushed := Log.feed_append_lineFeed hpending (Utf8.lineFeed_notMem_decode hheld)
      have hrest := ih ⟨intake.log.push (Utf8.decode intake.held.toList ++ "\n"), #[]⟩ hpending
        List.not_mem_nil
      rw [hoctet, receive_lineFeed, hrest, Utf8.decode_append_lineFeed, ← Log.feed_feed, hpushed]
      rfl
    · have hlonger : 0x0A ∉ (intake.held.push octet).toList := by
        rw [Array.toList_push, List.mem_append, List.mem_singleton]
        exact not_or_intro hheld (Ne.symm hoctet)
      have hrest := ih ⟨intake.log, intake.held.push octet⟩ hpending hlonger
      rw [receive_of_ne intake hoctet, hrest, Array.toList_push, List.append_assoc,
        List.singleton_append]

/-- What a stream delivers in portions is taken as one sequence of octets. -/
theorem run_map_octets (portions : List (List UInt8)) (intake : Intake) (later : List Delivery) :
    intake.run (portions.map .octets ++ later) =
      (portions.flatten.foldl receive intake).run later := by
  induction portions generalizing intake with
  | nil => rfl
  | cons portion portions ih =>
    rw [List.flatten_cons, List.foldl_append]
    exact ih _

end Intake

namespace Log

theorem ofDeliveries_octets (portions : List (List UInt8)) :
    ofDeliveries (portions.map .octets) =
      .ok ((empty defaultMaxDepth).feed (Utf8.decode portions.flatten)).finish := by
  have htaken := Intake.finish_foldl_receive portions.flatten .start rfl List.not_mem_nil
  have hrun := Intake.run_map_octets portions .start []
  rw [List.append_nil] at hrun
  exact hrun.trans (congrArg Except.ok htaken)

/-- A stream that delivers the octets of a text leads to the log that is fed that text. -/
theorem ofDeliveries_toUTF8 {text : String} {portions : List (List UInt8)}
    (htext : portions.flatten = text.toUTF8.data.toList) :
    ofDeliveries (portions.map .octets) = .ok ((empty defaultMaxDepth).feed text).finish := by
  rw [ofDeliveries_octets, htext, Utf8.decode_toUTF8]

/-- A stream that ends leads to the log that is fed the text of its octets and finished, and no text
waits in it. A stream that fails leads to its failure, whatever it delivered before. -/
theorem ofDeliveries_eq_feed_decode (portions : List (List UInt8)) :
    (∃ log, ofDeliveries (portions.map .octets) = .ok log ∧ log.pending = "" ∧
      log = ((empty defaultMaxDepth).feed (Utf8.decode portions.flatten)).finish) ∧
    ∀ cause later, ofDeliveries (portions.map .octets ++ .failure cause :: later) =
      .error ⟨cause⟩ := by
  refine ⟨⟨_, ofDeliveries_octets portions, pending_finish _, rfl⟩, fun cause later ↦ ?_⟩
  exact Intake.run_map_octets portions .start _

end Log

end VerifierTrace

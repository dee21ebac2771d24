import VerifierTrace.Machine.Text
import VerifierTrace.Proofs.Grammar.FactKey
import VerifierTrace.Proofs.Text.Splitting

/-!
# What a rendering tells

The rendering of a machine puts texts side by side that the log reports, and nothing in them is
escaped. A value is `Legible` when it is not the question mark of an unknown value, closes its
parentheses, and has spaces and less-than signs in parentheses only. Where all values are legible,
the rendering tells the machine, but for the lines that its frames are at
(`Machine.rendering_eq_iff`): depth, program counters, tracked slots with their values, effects and
writers, and all waiting callers.

Each part of a rendering is told from what follows it: a number, a value, a mark, the cells of a
frame, its writers, the whole frame. The renderings of the callers repeat each other, so they are
read as one list of frames (`Frame.callersFrames`), and the callers are found in it by its length.
-/

set_option autoImplicit false
set_option relaxedAutoImplicit false

namespace VerifierTrace

open NameForm (isNameChar isNameChar_of_isDigit)

/-! ### Names of slots -/

theorem isPlain_of_isNameChar {c : Char} (hc : isNameChar c) : isPlain c := by
  have hother : ∀ c', isNameChar c' = false → c ≠ c' := by
    rintro c' hc' rfl
    exact absurd hc (Bool.eq_false_iff.mp hc')
  simp [isPlain, isMark, hother ' ' rfl, hother '<' rfl, hother '(' rfl, hother ')' rfl]

namespace Slot

theorem all_isNameChar_text (slot : Slot) : slot.text.toList.all isNameChar := by
  have hleads : ∀ lead ∈ leads, lead.all isNameChar := by decide
  rw [toList_text, List.all_append, hleads slot.lead slot.lead_mem, Bool.true_and, List.all_eq_true]
  intro c hc
  exact isNameChar_of_isDigit (List.all_eq_true.mp slot.all_isDigit_digits c hc)

theorem exists_head_text (slot : Slot) (rest : List Char) :
    ∃ c, (slot.text.toList ++ rest).head? = some c ∧ isNameChar c ∧ c.isDigit = false := by
  have hleads : ∀ lead ∈ leads, lead.head?.any fun c ↦ isNameChar c && !c.isDigit := by decide
  obtain ⟨c, hhead, hc⟩ := (Option.any_eq_true _ _).mp (hleads slot.lead slot.lead_mem)
  refine ⟨c, ?_, by simpa using hc⟩
  rw [toList_text, List.append_assoc, List.head?_append, hhead]
  rfl

/-- The name of a slot is told from what follows it. -/
theorem text_append_injective {slot slot' : Slot} {rest rest' : List Char}
    (hrest : rest.head?.any isNameChar = false) (hrest' : rest'.head?.any isNameChar = false)
    (hsame : slot.text.toList ++ rest = slot'.text.toList ++ rest') :
    slot = slot' ∧ rest = rest' := by
  obtain ⟨htext, hends⟩ := append_injective_of_class slot.all_isNameChar_text
    slot'.all_isNameChar_text hrest hrest' hsame
  exact ⟨(append_text_injective (congrArg ([] ++ ·) htext)).2, hends⟩

end Slot

/-! ### Values -/

/-- The value can be told from what follows it and from an unknown value. -/
structure Legible (value : String) : Prop where
  known : value ≠ "?"
  encloses : encloses isMark 0 value.toList

/-- The value of the cell is legible, if it is known. -/
def Cell.IsLegible (cell : Cell) : Prop :=
  ∀ value, cell.value = some value → Legible value

/-- What may follow a frame: nothing, or a caller, which begins with its depth. -/
inductive EndsFrame : List Char → Prop
  | nothing : EndsFrame []
  | caller {c : Char} (hdigit : c.isDigit) (rest : List Char) :
      EndsFrame ("|frame ".toList ++ c :: rest)

/-- What may follow the cells of a frame: its first writer, or what may follow the frame. -/
inductive EndsCells : List Char → Prop
  | writer (slot : Slot) (rest : List Char) : EndsCells (slot.text.toList ++ '<' :: rest)
  | frame {text : List Char} (hends : EndsFrame text) : EndsCells text

/-- What may follow a value: a space that no digit follows, or what may follow the cells. -/
inductive EndsValue : List Char → Prop
  | space {rest : List Char} (hrest : rest.head?.any Char.isDigit = false) :
      EndsValue (' ' :: rest)
  | cells {text : List Char} (hends : EndsCells text) : EndsValue text

/-- A word between a value and the next mark, with the mark and what follows it. -/
inductive IsBorder : List Char → List Char → Prop
  | nothing : IsBorder [] []
  | space {rest : List Char} (hrest : rest.head?.any Char.isDigit = false) :
      IsBorder [] (' ' :: rest)
  | caller {c : Char} (hdigit : c.isDigit) (rest : List Char) :
      IsBorder "|frame".toList (' ' :: c :: rest)
  | writer (slot : Slot) (rest : List Char) : IsBorder slot.text.toList ('<' :: rest)

theorem EndsValue.exists_border {text : List Char} (hends : EndsValue text) :
    ∃ word rest, text = word ++ rest ∧ IsBorder word rest := by
  cases hends with
  | space hrest => exact ⟨_, _, rfl, .space hrest⟩
  | cells hends =>
    cases hends with
    | writer slot rest => exact ⟨_, _, rfl, .writer slot rest⟩
    | frame hends =>
      cases hends with
      | nothing => exact ⟨_, _, rfl, .nothing⟩
      | caller hdigit rest => exact ⟨"|frame".toList, _, rfl, .caller hdigit rest⟩

namespace IsBorder

variable {word word' rest : List Char}

theorem all_isPlain (hborder : IsBorder word rest) : word.all isPlain := by
  cases hborder with
  | nothing => rfl
  | space hrest => rfl
  | caller hdigit rest => decide
  | writer slot rest =>
    rw [List.all_eq_true]
    intro c hc
    exact isPlain_of_isNameChar (List.all_eq_true.mp slot.all_isNameChar_text c hc)

theorem beginsMarked (hborder : IsBorder word rest) : BeginsMarked rest := by
  cases hborder with
  | nothing => rfl
  | space hrest => rfl
  | caller hdigit rest => rfl
  | writer slot rest => rfl

/-- The mark tells which word is before it, but for the slot of a writer, and that is told from the
end of its name. -/
theorem append_injective (hborder : IsBorder word rest) (hborder' : IsBorder word' rest)
    {first second : List Char} (hsame : first ++ word = second ++ word') : first = second := by
  cases hborder with
  | nothing =>
    cases hborder' with
    | nothing => exact List.append_cancel_right hsame
  | space hrest =>
    cases hborder' with
    | space hrest' => exact List.append_cancel_right hsame
    | caller hdigit rest => exact absurd hdigit (Bool.eq_false_iff.mp hrest)
  | caller hdigit rest =>
    cases hborder' with
    | space hrest => exact absurd hdigit (Bool.eq_false_iff.mp hrest)
    | caller hdigit' rest => exact List.append_cancel_right hsame
  | writer slot rest =>
    cases hborder' with
    | writer slot' rest => exact (Slot.append_text_injective hsame).1

end IsBorder

/-- A value is told from what follows it. -/
theorem value_append_injective {first second rest rest' : List Char}
    (hfirst : encloses isMark 0 first) (hsecond : encloses isMark 0 second)
    (hrest : EndsValue rest) (hrest' : EndsValue rest')
    (hsame : first ++ rest = second ++ rest') : first = second ∧ rest = rest' := by
  obtain ⟨word, marked, rfl, hborder⟩ := hrest.exists_border
  obtain ⟨word', marked', rfl, hborder'⟩ := hrest'.exists_border
  have hvalue : first = second := by
    rw [← List.append_assoc, ← List.append_assoc] at hsame
    obtain ⟨hwords, rfl⟩ := append_injective_of_encloses
      (encloses_append hfirst hborder.all_isPlain) (encloses_append hsecond hborder'.all_isPlain)
      hborder.beginsMarked hborder'.beginsMarked hsame
    exact hborder.append_injective hborder' hwords
  rw [hvalue] at hsame
  exact ⟨hvalue, List.append_cancel_left hsame⟩

theorem Cell.IsLegible.value_eq_of_getD_eq {cell cell' : Cell} (hcell : cell.IsLegible)
    (hcell' : cell'.IsLegible) (hsame : cell.value.getD "?" = cell'.value.getD "?") :
    cell.value = cell'.value := by
  cases hvalue : cell.value with
  | none =>
    cases hvalue' : cell'.value with
    | none => rfl
    | some value =>
      rw [hvalue, hvalue'] at hsame
      exact absurd hsame.symm (hcell' value hvalue').known
  | some value =>
    cases hvalue' : cell'.value with
    | none =>
      rw [hvalue, hvalue'] at hsame
      exact absurd hsame (hcell value hvalue).known
    | some value' =>
      rw [hvalue, hvalue'] at hsame
      exact congrArg some hsame

theorem Cell.IsLegible.encloses_value {cell : Cell} (hcell : cell.IsLegible) :
    encloses isMark 0 (cell.value.getD "?").toList := by
  cases hvalue : cell.value with
  | none => rfl
  | some value => exact (hcell value hvalue).encloses

/-! ### Marks -/

namespace Effect

/-- The mark of a slot that was touched. -/
def markText (effect : Effect) : List Char :=
  if effect = .none then [] else ' ' :: '[' :: (effect.tag.toList ++ [']'])

theorem eq_of_tag_eq {effect effect' : Effect} (hsame : effect.tag.toList = effect'.tag.toList) :
    effect = effect' := by
  obtain ⟨isRead, isWrite⟩ := effect
  obtain ⟨isRead', isWrite'⟩ := effect'
  revert isRead isWrite isRead' isWrite'
  decide

/-- A mark is told from what follows it, if that does not begin as a mark does. -/
theorem markText_append_injective {effect effect' : Effect} {rest rest' : List Char}
    (hrest : ∀ more, rest ≠ ' ' :: '[' :: more) (hrest' : ∀ more, rest' ≠ ' ' :: '[' :: more)
    (hsame : effect.markText ++ rest = effect'.markText ++ rest') :
    effect = effect' ∧ rest = rest' := by
  have htag : ∀ effect : Effect, effect.tag.toList.all (· != ']') := by
    rintro ⟨isRead, isWrite⟩
    revert isRead isWrite
    decide
  unfold markText at hsame
  split at hsame
  · next hnone =>
    split at hsame
    · next hnone' => exact ⟨hnone.trans hnone'.symm, hsame⟩
    · exact absurd hsame (hrest _)
  · split at hsame
    · exact absurd hsame.symm (hrest' _)
    · simp only [List.cons_append, List.append_assoc, List.cons.injEq, true_and] at hsame
      obtain ⟨htags, hends⟩ := append_injective_of_class (htag effect) (htag effect') rfl rfl hsame
      exact ⟨eq_of_tag_eq htags, (List.cons.inj hends).2⟩

end Effect

/-! ### Cells -/

/-- The cells of a frame, one after the other. -/
def cellsText (entries : List (Slot × Cell)) : List Char :=
  entries.flatMap fun entry ↦ (entry.2.text entry.1).toList

/-- What the text of a cell tells: all but the writer. -/
def Cell.shown (entry : Slot × Cell) : Slot × Option String × Effect :=
  (entry.1, entry.2.value, entry.2.effect)

theorem Cell.toList_text (slot : Slot) (cell : Cell) : (cell.text slot).toList =
    ' ' :: (slot.text.toList ++ '=' :: ((cell.value.getD "?").toList ++ cell.effect.markText)) := by
  have hmark : (if cell.effect = .none then "" else " [" ++ cell.effect.tag ++ "]").toList =
      cell.effect.markText := by
    rw [Effect.markText]
    split
    · rfl
    · rw [String.toList_append, String.toList_append]
      rfl
  rw [Cell.text, String.toList_append, String.toList_append, String.toList_append,
    String.toList_append, hmark]
  simp

section Cells

variable {entry entry' : Slot × Cell} {entries entries' : List (Slot × Cell)}
  {rest rest' : List Char}

/-- What may follow a cell: what may follow its value, unless it begins as the mark of an effect
does. -/
structure FollowsCell (rest : List Char) : Prop where
  endsValue : EndsValue rest
  ne_mark : ∀ more, rest ≠ ' ' :: '[' :: more

theorem EndsCells.head?_ne_space (hends : EndsCells rest) : rest.head? ≠ some ' ' := by
  cases hends with
  | writer slot rest =>
    obtain ⟨c, hhead, hc⟩ := slot.exists_head_text ('<' :: rest)
    rw [hhead]
    rintro ⟨⟩
    exact absurd hc.1 (by decide)
  | frame hends =>
    cases hends with
    | nothing => exact nofun
    | caller hdigit rest => exact (by decide : some '|' ≠ some ' ')

theorem EndsCells.followsCell (hends : EndsCells rest) (entries : List (Slot × Cell)) :
    FollowsCell (cellsText entries ++ rest) := by
  cases entries with
  | nil =>
    refine ⟨.cells hends, fun more hsame ↦ hends.head?_ne_space ?_⟩
    rw [show rest = ' ' :: '[' :: more from hsame]
    rfl
  | cons entry entries =>
    obtain ⟨more, hmore⟩ : ∃ more, cellsText (entry :: entries) ++ rest =
        ' ' :: (entry.1.text.toList ++ more) := by
      rw [cellsText, List.flatMap_cons, Cell.toList_text]
      simp only [List.cons_append, List.append_assoc]
      exact ⟨_, rfl⟩
    obtain ⟨c, hhead, hname, hdigit⟩ := entry.1.exists_head_text more
    rw [hmore]
    refine ⟨.space (by rw [hhead]; exact hdigit), fun others hsame ↦ ?_⟩
    rw [(List.cons.inj hsame).2] at hhead
    obtain rfl := Option.some.inj hhead
    exact absurd hname (by decide)

theorem EndsValue.markText (hends : EndsValue rest) (effect : Effect) :
    EndsValue (effect.markText ++ rest) := by
  rw [Effect.markText]
  split
  · exact hends
  · exact .space rfl

/-- A cell is told from what follows it. -/
theorem Cell.text_append_injective (hentry : entry.2.IsLegible) (hentry' : entry'.2.IsLegible)
    (hrest : FollowsCell rest) (hrest' : FollowsCell rest')
    (hsame : (entry.2.text entry.1).toList ++ rest = (entry'.2.text entry'.1).toList ++ rest') :
    Cell.shown entry = Cell.shown entry' ∧ rest = rest' := by
  simp only [Cell.toList_text, List.cons_append, List.append_assoc, List.cons.injEq, true_and]
    at hsame
  obtain ⟨hslot, hafter⟩ := Slot.text_append_injective rfl rfl hsame
  obtain ⟨hvalue, hmarks⟩ := value_append_injective hentry.encloses_value hentry'.encloses_value
    (hrest.endsValue.markText _) (hrest'.endsValue.markText _) (List.cons.inj hafter).2
  obtain ⟨heffect, hends⟩ :=
    Effect.markText_append_injective hrest.ne_mark hrest'.ne_mark hmarks
  refine ⟨?_, hends⟩
  rw [Cell.shown, Cell.shown, hslot, heffect,
    hentry.value_eq_of_getD_eq hentry' (String.toList_inj.mp hvalue)]

/-- The cells of a frame are told from what follows them. -/
theorem cellsText_append_injective (hentries : ∀ entry ∈ entries, entry.2.IsLegible)
    (hentries' : ∀ entry ∈ entries', entry.2.IsLegible) (hrest : EndsCells rest)
    (hrest' : EndsCells rest') (hsame : cellsText entries ++ rest = cellsText entries' ++ rest') :
    entries.map Cell.shown = entries'.map Cell.shown ∧ rest = rest' := by
  refine flatMap_append_injective Cell.text_append_injective ?_ EndsCells.followsCell hentries
    hentries' hrest hrest' hsame
  rintro rest hends entry more rfl
  refine hends.head?_ne_space ?_
  rw [Cell.toList_text]
  rfl

end Cells

/-! ### Writers -/

/-- The slots with a last writer. -/
def lastWriters (entries : List (Slot × Cell)) : List (Slot × Nat) :=
  entries.filterMap fun entry ↦ entry.2.writer.map (entry.1, ·)

/-- A slot with its last writer. -/
def writerText (writer : Slot × Nat) : List Char :=
  writer.1.text.toList ++ '<' :: ((Numeral.text writer.2).toList ++ [';'])

def writersText (writers : List (Slot × Nat)) : List Char :=
  writers.flatMap writerText

section Writers

variable {pairs pairs' : List (Slot × Nat)} {rest rest' : List Char}

theorem flatMap_writerText (entries : List (Slot × Cell)) :
    (entries.flatMap fun entry ↦ (entry.2.writerText entry.1).toList) =
      writersText (lastWriters entries) := by
  induction entries with
  | nil => rfl
  | cons entry entries ih =>
    obtain ⟨slot, value, effect, writer⟩ := entry
    rw [List.flatMap_cons, ih]
    cases writer with
    | none => rfl
    | some index => simp [Cell.writerText, writersText, writerText, lastWriters]

theorem writerText_append (writer : Slot × Nat) (rest : List Char) : writerText writer ++ rest =
    writer.1.text.toList ++ '<' :: ((Numeral.text writer.2).toList ++ ';' :: rest) := by
  simp [writerText]

theorem EndsFrame.endsCells_writersText (hends : EndsFrame rest) (pairs : List (Slot × Nat)) :
    EndsCells (writersText pairs ++ rest) := by
  cases pairs with
  | nil => exact .frame hends
  | cons writer pairs =>
    rw [writersText, List.flatMap_cons, List.append_assoc, writerText_append]
    exact .writer _ _

/-- A frame does not go on with the name of a slot. -/
theorem EndsFrame.ne_text_append (hends : EndsFrame rest) (slot : Slot) (more : List Char) :
    rest ≠ slot.text.toList ++ more := by
  intro hsame
  obtain ⟨c, hhead, hc⟩ := slot.exists_head_text more
  rw [← hsame] at hhead
  cases hends with
  | nothing => cases hhead
  | caller hdigit rest =>
    obtain rfl : '|' = c := Option.some.inj hhead
    exact absurd hc.1 (by decide)

/-- A writer is told from whatever follows it. -/
theorem writerText_append_injective {writer writer' : Slot × Nat}
    (hsame : writerText writer ++ rest = writerText writer' ++ rest') :
    writer = writer' ∧ rest = rest' := by
  rw [writerText_append, writerText_append] at hsame
  obtain ⟨hslot, hafter⟩ := Slot.text_append_injective rfl rfl hsame
  obtain ⟨hdigits, hends⟩ := append_injective_of_class (Numeral.all_isDigit_text writer.2)
    (Numeral.all_isDigit_text writer'.2) rfl rfl (List.cons.inj hafter).2
  exact ⟨Prod.ext hslot (Numeral.text_injective hdigits), (List.cons.inj hends).2⟩

/-- The writers of a frame are told from what follows them. -/
theorem writersText_append_injective (hrest : EndsFrame rest) (hrest' : EndsFrame rest')
    (hsame : writersText pairs ++ rest = writersText pairs' ++ rest') :
    pairs = pairs' ∧ rest = rest' := by
  have hall : ∀ pairs : List (Slot × Nat), ∀ writer ∈ pairs, True := fun _ _ _ ↦ trivial
  have hpairs : pairs.map id = pairs'.map id ∧ rest = rest' := by
    refine flatMap_append_injective (fun _ _ _ _ ↦ writerText_append_injective) ?_
      EndsFrame.endsCells_writersText (hall pairs) (hall pairs') hrest hrest' hsame
    intro rest hends writer more
    rw [writerText_append]
    exact hends.ne_text_append _ _
  rwa [List.map_id, List.map_id] at hpairs

end Writers

/-! ### Frames -/

namespace Frame

variable {frame frame' : Frame} {depth depth' : Nat} {rest rest' : List Char}

/-- All values in the frame are legible. -/
def IsLegible (frame : Frame) : Prop :=
  ∀ entry ∈ frame.cells.entries, entry.2.IsLegible

/-- The frame without the line that it is at. -/
def forgetLine (frame : Frame) : Frame :=
  { frame with line := none }

def counterText : Option Nat → List Char
  | none => []
  | some pc => " pc ".toList ++ (Numeral.text pc).toList

theorem toList_rendering (frame : Frame) (depth : Nat) :
    (frame.rendering depth).toList = "frame ".toList ++ ((Numeral.text depth).toList ++
      (counterText frame.pc ++ ':' :: (cellsText frame.cells.entries ++
        writersText (lastWriters frame.cells.entries)))) := by
  have hcounter : (frame.pc.elim "" fun pc ↦ " pc " ++ Numeral.text pc).toList =
      counterText frame.pc := by
    cases frame.pc with
    | none => rfl
    | some pc => exact String.toList_append
  simp only [rendering, text, String.toList_append, String.toList_join, List.flatMap_map, hcounter,
    flatMap_writerText, cellsText, List.append_assoc]
  rfl

/-- A program counter is told from what follows it. -/
theorem counterText_append_injective {pc pc' : Option Nat}
    (hsame : counterText pc ++ ':' :: rest = counterText pc' ++ ':' :: rest') :
    pc = pc' ∧ rest = rest' := by
  cases pc with
  | none =>
    cases pc' with
    | none => exact ⟨rfl, (List.cons.inj hsame).2⟩
    | some pc' => cases (List.cons.inj hsame).1
  | some pc =>
    cases pc' with
    | none => cases (List.cons.inj hsame).1
    | some pc' =>
      rw [counterText, counterText, List.append_assoc, List.append_assoc] at hsame
      obtain ⟨hdigits, hends⟩ := append_injective_of_class (Numeral.all_isDigit_text pc)
        (Numeral.all_isDigit_text pc') rfl rfl (List.append_cancel_left hsame)
      exact ⟨by rw [Numeral.text_injective hdigits], (List.cons.inj hends).2⟩

theorem mem_lastWriters_iff {cells : SlotMap Cell} {slot : Slot} {index : Nat} :
    (slot, index) ∈ lastWriters cells.entries ↔
      ∃ cell, cells.get? slot = some cell ∧ cell.writer = some index := by
  rw [lastWriters, List.mem_filterMap]
  constructor
  · rintro ⟨⟨slot', cell⟩, hmem, hwriter⟩
    obtain ⟨index', hindex, hsame⟩ := Option.map_eq_some_iff.mp hwriter
    obtain ⟨rfl, rfl⟩ := Prod.mk.inj hsame
    exact ⟨cell, (cells.mem_entries_iff _ _).mp hmem, hindex⟩
  · rintro ⟨cell, hcell, hindex⟩
    exact ⟨(slot, cell), (cells.mem_entries_iff _ _).mpr hcell, Option.map_eq_some_iff.mpr
      ⟨index, hindex, rfl⟩⟩

theorem get?_eq_some_of_shown_eq {cells cells' : SlotMap Cell}
    (hshown : cells.entries.map Cell.shown = cells'.entries.map Cell.shown)
    (hwriters : lastWriters cells.entries = lastWriters cells'.entries) {slot : Slot} {cell : Cell}
    (hcell : cells.get? slot = some cell) : cells'.get? slot = some cell := by
  have hmem := (cells.mem_entries_iff slot cell).mpr hcell
  obtain ⟨⟨slot', cell'⟩, hmem', hsame⟩ :=
    List.mem_map.mp (hshown ▸ List.mem_map_of_mem (f := Cell.shown) hmem)
  obtain ⟨rfl, hrest⟩ := Prod.mk.inj hsame
  obtain ⟨hvalue, heffect⟩ := Prod.mk.inj hrest
  have hcell' := (cells'.mem_entries_iff slot' cell').mp hmem'
  have hwriter : ∀ index, cell'.writer = some index ↔ cell.writer = some index := by
    have hone : ∀ {cells : SlotMap Cell} {cell : Cell}, cells.get? slot' = some cell → ∀ index,
        (slot', index) ∈ lastWriters cells.entries ↔ cell.writer = some index := by
      intro cells cell hcell index
      rw [mem_lastWriters_iff, hcell]
      simp
    intro index
    rw [← hone hcell' index, ← hwriters, hone hcell index]
  obtain ⟨value, effect, writer⟩ := cell
  obtain ⟨value', effect', writer'⟩ := cell'
  obtain rfl : value' = value := hvalue
  obtain rfl : effect' = effect := heffect
  obtain rfl : writer' = writer := Option.ext hwriter
  exact hcell'

/-- Cells and writers make up the table. -/
theorem cells_eq_of_shown_eq {cells cells' : SlotMap Cell}
    (hshown : cells.entries.map Cell.shown = cells'.entries.map Cell.shown)
    (hwriters : lastWriters cells.entries = lastWriters cells'.entries) : cells = cells' := by
  refine SlotMap.ext_get? fun slot ↦ Option.ext fun cell ↦ ?_
  exact ⟨get?_eq_some_of_shown_eq hshown hwriters,
    get?_eq_some_of_shown_eq hshown.symm hwriters.symm⟩

/-- A frame is told from what follows it, and its rendering tells all but its line. -/
theorem rendering_append_injective (hframe : frame.IsLegible) (hframe' : frame'.IsLegible)
    (hrest : EndsFrame rest) (hrest' : EndsFrame rest')
    (hsame : (frame.rendering depth).toList ++ rest = (frame'.rendering depth').toList ++ rest') :
    frame.forgetLine = frame'.forgetLine ∧ rest = rest' := by
  have hborder : ∀ (pc : Option Nat) (rest : List Char),
      (counterText pc ++ ':' :: rest).head?.any Char.isDigit = false := by
    intro pc rest
    cases pc with
    | none => rfl
    | some pc => rfl
  simp only [toList_rendering, List.append_assoc, List.cons_append, List.append_cancel_left_eq]
    at hsame
  obtain ⟨-, hcounters⟩ := append_injective_of_class (Numeral.all_isDigit_text depth)
    (Numeral.all_isDigit_text depth') (hborder _ _) (hborder _ _) hsame
  obtain ⟨hpc, hcells⟩ := counterText_append_injective hcounters
  obtain ⟨hshown, hwriters⟩ := cellsText_append_injective hframe hframe'
    (hrest.endsCells_writersText _) (hrest'.endsCells_writersText _) hcells
  obtain ⟨hpairs, hends⟩ := writersText_append_injective hrest hrest' hwriters
  refine ⟨?_, hends⟩
  rw [forgetLine, forgetLine, hpc, cells_eq_of_shown_eq hshown hpairs]

end Frame

/-! ### Callers -/

namespace Frame

/-- The frames that are rendered for some waiting callers, each with its depth. -/
def callersFrames : List Frame → List (Nat × Frame)
  | [] => []
  | caller :: outside =>
    callersFrames outside ++ (outside.length, caller) :: callersFrames outside

def framesText (frames : List (Nat × Frame)) : List Char :=
  frames.flatMap fun frame ↦ '|' :: (frame.2.rendering frame.1).toList

theorem toList_callersRendering (callers : List Frame) :
    (callersRendering callers).toList = framesText (callersFrames callers) := by
  induction callers with
  | nil => rfl
  | cons caller outside ih =>
    simp only [callersRendering, callersFrames, framesText, String.toList_append,
      List.flatMap_append, List.flatMap_cons] at ih ⊢
    rw [ih, List.append_assoc, List.append_assoc]
    rfl

theorem endsFrame_framesText (frames : List (Nat × Frame)) : EndsFrame (framesText frames) := by
  cases frames with
  | nil => exact .nothing
  | cons frame frames =>
    obtain ⟨c, digits, hdigits, hdigit⟩ := Numeral.exists_cons_text frame.1
    have htext : framesText (frame :: frames) = "|frame ".toList ++ c :: (digits ++
        (counterText frame.2.pc ++ ':' :: (cellsText frame.2.cells.entries ++
          writersText (lastWriters frame.2.cells.entries))) ++ framesText frames) := by
      rw [framesText, List.flatMap_cons, toList_rendering, hdigits]
      rfl
    rw [htext]
    exact .caller hdigit _

/-- The renderings of some frames tell all but their lines. -/
theorem framesText_injective {frames frames' : List (Nat × Frame)}
    (hframes : ∀ frame ∈ frames, frame.2.IsLegible)
    (hframes' : ∀ frame ∈ frames', frame.2.IsLegible)
    (hsame : framesText frames = framesText frames') :
    frames.map (forgetLine ·.2) = frames'.map (forgetLine ·.2) := by
  have hone : ∀ {frame frame' : Nat × Frame} {rest rest' : List Char}, frame.2.IsLegible →
      frame'.2.IsLegible → EndsFrame rest → EndsFrame rest' →
        '|' :: (frame.2.rendering frame.1).toList ++ rest =
          '|' :: (frame'.2.rendering frame'.1).toList ++ rest' →
        frame.2.forgetLine = frame'.2.forgetLine ∧ rest = rest' :=
    fun hframe hframe' hrest hrest' hsame ↦
      rendering_append_injective hframe hframe' hrest hrest' (List.cons.inj hsame).2
  have hends : ∀ {rest : List Char}, rest = [] → ∀ (frame : Nat × Frame) more,
      rest ≠ '|' :: (frame.2.rendering frame.1).toList ++ more := by
    rintro _ rfl frame more ⟨⟩
  have hfollows : ∀ {rest : List Char}, rest = [] → ∀ frames,
      EndsFrame (framesText frames ++ rest) := by
    rintro _ rfl frames
    rw [List.append_nil]
    exact endsFrame_framesText frames
  have hrows : framesText frames ++ [] = framesText frames' ++ [] := by rw [hsame]
  exact (flatMap_append_injective hone hends hfollows hframes hframes' rfl rfl hrows).1

theorem mem_of_mem_callersFrames {callers : List Frame} {frame : Nat × Frame}
    (hmem : frame ∈ callersFrames callers) : frame.2 ∈ callers := by
  induction callers with
  | nil => cases hmem
  | cons caller outside ih =>
    rw [callersFrames, List.mem_append, List.mem_cons] at hmem
    rcases hmem with hmem | rfl | hmem
    · exact List.mem_cons_of_mem _ (ih hmem)
    · exact List.mem_cons_self
    · exact List.mem_cons_of_mem _ (ih hmem)

/-- The innermost caller is in the middle of the list of frames, and those outside it in either
half. -/
theorem map_forgetLine_eq_of_callersFrames_eq {callers callers' : List Frame}
    (hsame : (callersFrames callers).map (forgetLine ·.2) =
      (callersFrames callers').map (forgetLine ·.2)) :
    callers.map forgetLine = callers'.map forgetLine := by
  induction callers generalizing callers' with
  | nil =>
    cases callers' with
    | nil => rfl
    | cons caller' outside' => simp [callersFrames] at hsame
  | cons caller outside ih =>
    cases callers' with
    | nil => simp [callersFrames] at hsame
    | cons caller' outside' =>
      simp only [callersFrames, List.map_append, List.map_cons] at hsame
      have hlength : (callersFrames outside).length = (callersFrames outside').length := by
        have hlengths := congrArg List.length hsame
        simp only [List.length_append, List.length_cons, List.length_map] at hlengths
        omega
      obtain ⟨houtside, hrest⟩ := List.append_inj hsame (by simp [hlength])
      rw [List.map_cons, List.map_cons, ih houtside, (List.cons.inj hrest).1]

end Frame

/-! ### Machines -/

namespace Machine

/-- All values in the machine and its waiting callers are legible. -/
def IsLegible (machine : Machine) : Prop :=
  ∀ frame ∈ machine.frame :: machine.callers, frame.IsLegible

/-- The machine without the lines that its frames are at. -/
def forgetLines (machine : Machine) : Machine :=
  ⟨machine.frame.forgetLine, machine.callers.map Frame.forgetLine⟩

/-- The lines of the frames are not rendered. -/
theorem rendering_forgetLines (machine : Machine) :
    machine.forgetLines.rendering = machine.rendering := by
  have hcallers : ∀ callers : List Frame,
      Frame.callersRendering (callers.map Frame.forgetLine) = Frame.callersRendering callers := by
    intro callers
    induction callers with
    | nil => rfl
    | cons caller outside ih =>
      rw [List.map_cons, Frame.callersRendering, Frame.callersRendering, ih, List.length_map]
      rfl
  rw [rendering, rendering, forgetLines, hcallers, depth, List.length_map]
  rfl

/-- The rendering of a machine tells all but the lines of its frames. -/
theorem forgetLines_eq_of_rendering_eq {machine machine' : Machine} (hmachine : machine.IsLegible)
    (hmachine' : machine'.IsLegible) (hsame : machine.rendering = machine'.rendering) :
    machine.forgetLines = machine'.forgetLines := by
  have hcallers : ∀ machine : Machine, machine.IsLegible →
      ∀ frame ∈ Frame.callersFrames machine.callers, frame.2.IsLegible :=
    fun machine hmachine frame hframe ↦
      hmachine frame.2 (List.mem_cons_of_mem _ (Frame.mem_of_mem_callersFrames hframe))
  have htexts := congrArg String.toList hsame
  simp only [rendering, String.toList_append, Frame.toList_callersRendering] at htexts
  obtain ⟨hframe, hframes⟩ := Frame.rendering_append_injective (hmachine _ List.mem_cons_self)
    (hmachine' _ List.mem_cons_self) (Frame.endsFrame_framesText _) (Frame.endsFrame_framesText _)
    htexts
  have houtside := Frame.framesText_injective (hcallers _ hmachine) (hcallers _ hmachine') hframes
  rw [forgetLines, forgetLines, hframe, Frame.map_forgetLine_eq_of_callersFrames_eq houtside]

/-- Two machines have the same rendering exactly when they differ in the lines of their frames at
most. -/
theorem rendering_eq_iff {machine machine' : Machine} (hmachine : machine.IsLegible)
    (hmachine' : machine'.IsLegible) :
    machine.rendering = machine'.rendering ↔ machine.forgetLines = machine'.forgetLines := by
  refine ⟨forgetLines_eq_of_rendering_eq hmachine hmachine', fun hsame ↦ ?_⟩
  rw [← rendering_forgetLines machine, hsame, rendering_forgetLines]

end Machine

end VerifierTrace

import UnitScript.Input
import UnitScript.Proofs.Token.Lines

/-!
# Programs as they are read

A program is read from the bytes of its text, which are cut where the text is cut, since no other
character is encoded with the byte of a newline (`Input.cut_pieces`). So reading goes through the
pieces of a text one by one and hands out its lines, each closed by a newline of its own, whether
they are read from a file or typed in (`Input.readLines_cut`). What is handed out is not the text:
a last line has been closed, and carriage returns may be lost at the ends of lines. But it has the
same tokens at the same places, or the same lexical error (`Token.ofText_readProgram`).
-/

namespace UnitScript

/-! ## Lines that are put together -/

namespace Text

/-- Lines as a text, every line closed by a newline: what `Input.readLines` hands to the lexer. -/
def unlines (lines : List (List Char)) : List Char := lines.flatMap (· ++ ['\n'])

theorem unlines_cons (line : List Char) (lines : List (List Char)) :
    unlines (line :: lines) = line ++ '\n' :: unlines lines := by
  rw [unlines, List.flatMap_cons, List.append_assoc, List.singleton_append, ← unlines]

/-- `Text.lines` reads back what `unlines` has put together, but for carriage returns at the ends of
the lines, which `trimNewline` takes off. -/
theorem lines_unlines {ls : List (List Char)} (h : ∀ line ∈ ls, '\n' ∉ line) :
    lines (unlines ls) = ls.map fun line => trimNewline (line ++ ['\n']) := by
  induction ls with
  | nil => rfl
  | cons line ls ih =>
    obtain ⟨hline, hrest⟩ := List.forall_mem_cons.1 h
    rw [unlines_cons, lines_of_first hline, ih hrest, List.map_cons]

end Text

namespace Token

/-- The lines of a text have the tokens of the text (`Token.ofText`) when they are put together
again: no token reaches over the end of a line. -/
theorem ofText_unlines_lines (text : List Char) :
    ofText (Text.unlines (Text.lines text)) = ofText text := by
  have hrows (row : Nat) (ls : List (List Char)) :
      ofLines row (ls.map fun line => Text.trimNewline (line ++ ['\n'])) = ofLines row ls := by
    induction ls generalizing row with
    | nil => rfl
    | cons line ls ih => rw [List.map_cons, ofLines, ofLines, ofLine_trimNewline, ih]
  rw [ofText, Text.lines_unlines fun _ => Text.notMem_of_mem_lines, hrows, ofText]

end Token

/-! ## Bytes of a text -/

namespace Text

/-- The bytes of a text in UTF-8, character by character (`String.utf8EncodeChar`). -/
def bytes (text : List Char) : List UInt8 := text.flatMap String.utf8EncodeChar

theorem bytes_cons (c : Char) (text : List Char) :
    bytes (c :: text) = String.utf8EncodeChar c ++ bytes text :=
  List.flatMap_cons

theorem bytes_append (a b : List Char) : bytes (a ++ b) = bytes a ++ bytes b :=
  List.flatMap_append

/-- A byte that is made of a number is not that of a newline if the number is not its code. -/
theorem newline_ne_ofNat {n : Nat} (h : n % 256 ≠ 10) : (10 : UInt8) ≠ UInt8.ofNat n := by
  intro heq
  have := congrArg UInt8.toNat heq
  rw [UInt8.toNat_ofNat'] at this
  exact h this.symm

/-- No character but the newline is encoded with the byte of a newline, so `Input.cutLine` cuts
encoded texts only where they have newlines. -/
theorem notMem_encodeChar {c : Char} (h : c ≠ '\n') : 10 ∉ String.utf8EncodeChar c := by
  have hcode : c.val.toNat ≠ 10 := fun heq => h (Char.toNat_inj.1 heq)
  unfold String.utf8EncodeChar
  simp only
  -- Characters of more than one byte have none below 128.
  split
  · simp only [List.mem_cons, List.not_mem_nil, or_false]
    exact newline_ne_ofNat (by omega)
  · split
    · simp only [List.mem_cons, List.not_mem_nil, or_false, not_or]
      refine ⟨newline_ne_ofNat ?_, newline_ne_ofNat ?_⟩ <;> omega
    · split
      · simp only [List.mem_cons, List.not_mem_nil, or_false, not_or]
        refine ⟨newline_ne_ofNat ?_, newline_ne_ofNat ?_, newline_ne_ofNat ?_⟩ <;> omega
      · simp only [List.mem_cons, List.not_mem_nil, or_false, not_or]
        refine ⟨newline_ne_ofNat ?_, newline_ne_ofNat ?_, newline_ne_ofNat ?_,
          newline_ne_ofNat ?_⟩ <;> omega

end Text

namespace Input

/-- `Input.decode?` reads a text back from its `Text.bytes`, every character of it. -/
theorem decode?_bytes (text : List Char) : decode? (Text.bytes text) = some text := by
  have hencode : ByteArray.mk (Text.bytes text).toArray = text.utf8Encode :=
    ByteArray.ext (Array.toList_inj.1 List.toList_data_toByteArray.symm)
  rw [decode?, hencode, List.utf8Decode?_utf8Encode, Option.map_some, List.toList_toArray]

/-! ## Pieces -/

/-- Bytes that `cutLine` cuts piece by piece into the bytes of texts, up to a rest. This is the
recursion of `readLines` without its modes and its fuel. -/
inductive Cut (rest : List UInt8) : List UInt8 → List (List Char) → Prop
  | nil : Cut rest rest []
  | cons : piece ≠ [] → cutLine input = (Text.bytes piece, more) → Cut rest more pieces →
      Cut rest input (piece :: pieces)

/-- Bytes without a newline in front of an input belong to the first line that `cutLine` cuts
off. -/
theorem cutLine_append_of_notMem {front : List UInt8} (h : 10 ∉ front) (input : List UInt8) :
    cutLine (front ++ input) = (front ++ (cutLine input).1, (cutLine input).2) := by
  induction front with
  | nil => rfl
  | cons byte front ih =>
    obtain ⟨hbyte, hfront⟩ := not_or.1 (mt List.mem_cons.2 h)
    rw [List.cons_append, cutLine, if_neg (Ne.symm hbyte), ih hfront, List.cons_append]

/-- The bytes of a text are cut (`Cut`) where `Text.pieces` cuts the text. What follows it is not
touched if there is nothing or the text is closed by a newline. -/
theorem cut_pieces (text : List Char) (rest : List UInt8)
    (h : rest = [] ∨ text = [] ∨ text.getLast? = some '\n') :
    Cut rest (Text.bytes text ++ rest) (Text.pieces text) := by
  induction text with
  | nil => exact .nil
  | cons c text ih =>
    rw [Text.bytes_cons, List.append_assoc]
    have hclosed : rest = [] ∨ text = [] ∨ text.getLast? = some '\n' := by
      rcases h with h | h | h
      · exact .inl h
      · cases h
      · cases text with
        | nil => exact .inr (.inl rfl)
        | cons d text => exact .inr (.inr (List.getLast?_cons_cons ▸ h))
    by_cases hc : c = '\n'
    · subst hc
      rw [Text.pieces_cons_newline]
      exact .cons (List.cons_ne_nil _ _) rfl (ih hclosed)
    · have hcut := cutLine_append_of_notMem (Text.notMem_encodeChar hc) (Text.bytes text ++ rest)
      cases hpieces : Text.pieces text with
      | nil =>
        have hnil : text = [] := by rw [← Text.flatten_pieces text, hpieces, List.flatten_nil]
        subst hnil
        have hrest : rest = [] := by
          rcases h with h | h | h
          · exact h
          · cases h
          · exact absurd (Option.some.inj h) hc
        subst hrest
        rw [Text.pieces_cons_of_nil hc hpieces]
        exact .cons (List.cons_ne_nil _ _) hcut .nil
      | cons piece others =>
        rw [Text.pieces_cons_of_cons hc hpieces]
        have hcuts := ih hclosed
        rw [hpieces] at hcuts
        generalize Text.bytes text ++ rest = input at hcut hcuts ⊢
        cases hcuts with
        | cons _ hpiece hothers =>
          rw [hpiece] at hcut
          exact .cons (List.cons_ne_nil _ _) (Text.bytes_cons c piece ▸ hcut) hothers

variable {rest input : List UInt8} {pieces : List (List Char)}

/-- A text that is not empty has bytes. -/
theorem bytes_ne_nil {piece : List Char} (h : piece ≠ []) : Text.bytes piece ≠ [] := by
  intro hnil
  have hdecode := decode?_bytes piece
  rw [hnil] at hdecode
  exact h (Option.some.inj (hdecode.symm.trans (decode?_bytes [])))

/-- A `Cut` has no more pieces than it takes bytes, so `readProgram` gives `readLines` enough of a
bound. -/
theorem Cut.length_le (h : Cut rest input pieces) : pieces.length + rest.length ≤ input.length := by
  induction h with
  | nil => exact Nat.le_of_eq (Nat.zero_add _)
  | @cons piece input more pieces hpiece hcut _ ih =>
    have hlength := congrArg List.length (cutLine_append input)
    simp only [hcut, List.length_append] at hlength
    have := List.length_pos_iff.2 (bytes_ne_nil hpiece)
    rw [List.length_cons]
    omega

/-! ## Reading -/

/-- How many prompts are written for so many calls of `readLine`: none for a file, one each for a
program that is typed in. -/
def promptsFor : InputMode → Nat → Nat
  | .file, _ => 0
  | .interactive, reads => reads

/-- The prompts for further calls of `readLine` are added to those before, in either mode. -/
theorem promptsFor_add (mode : InputMode) (reads more : Nat) :
    promptsFor mode (reads + more) = promptsFor mode reads + promptsFor mode more := by
  cases mode with
  | file => rfl
  | interactive => rfl

/-- A piece is read by `readLine` as a line without its line end, unless it is the `sentinel` of a
program that is typed in. -/
theorem readLine_piece {mode : InputMode} (prompts : Nat) {piece : List Char} (hne : piece ≠ [])
    (hcut : cutLine input = (Text.bytes piece, rest))
    (hline : mode = .interactive → Text.trimNewline piece ≠ sentinel) :
    readLine ⟨mode, input, false, prompts⟩ =
      (.ok (Text.trimNewline piece), ⟨mode, rest, false, prompts + promptsFor mode 1⟩) := by
  have hgo :
      ¬(Text.bytes piece = [] ∨ mode = .interactive ∧ Text.trimNewline piece = sentinel) := by
    rintro (hnil | ⟨hmode, hsentinel⟩)
    · exact bytes_ne_nil hne hnil
    · exact hline hmode hsentinel
  simp only [readLine, hcut, decode?_bytes, if_neg hgo]
  cases mode <;> rfl

/-- What is typed in ends at the line that equals `sentinel`: `readLine` takes the line, and the
input has ended. -/
theorem readLine_sentinel {prompts : Nat} {piece : List Char}
    (hcut : cutLine input = (Text.bytes piece, rest)) (hline : Text.trimNewline piece = sentinel) :
    readLine ⟨.interactive, input, false, prompts⟩ =
      (.ok [], ⟨.interactive, rest, true, prompts + 1⟩) := by
  simp only [readLine, hcut, decode?_bytes, hline, and_self, or_true, if_true]

/-- Where no byte is left `readLine` ends the input in either mode, with the prompt that was written
before nothing came. -/
theorem readLine_nil (mode : InputMode) (prompts : Nat) :
    readLine ⟨mode, [], false, prompts⟩ =
      (.ok [], ⟨mode, [], true, prompts + promptsFor mode 1⟩) := by
  cases mode <;> rfl

/-- The pieces of a `Cut` are read one by one by `readLines` and handed out as closed lines, if the
input ends behind them. By induction on the `Cut`, with one `readLine_piece` for each of its
steps. -/
theorem readLines_cut {mode : InputMode} {prompts bound : Nat} {last : Input}
    (h : Cut rest input pieces)
    (hlines : mode = .interactive → ∀ piece ∈ pieces, Text.trimNewline piece ≠ sentinel)
    (hlast : readLine ⟨mode, rest, false, prompts + promptsFor mode pieces.length⟩ = (.ok [], last))
    (hended : last.ended = true) (hbound : pieces.length < bound) :
    readLines bound ⟨mode, input, false, prompts⟩ =
      (.ok (Text.unlines (pieces.map Text.trimNewline)), last) := by
  obtain ⟨bound, rfl⟩ := Nat.exists_eq_add_one.2 (Nat.zero_lt_of_lt hbound)
  induction h generalizing prompts bound with
  | nil =>
    have hnone : promptsFor mode 0 = 0 := by cases mode <;> rfl
    rw [List.length_nil, hnone, Nat.add_zero] at hlast
    simp only [readLines, hlast, hended, if_true]
    rfl
  | @cons piece input more pieces hpiece hcut _ ih =>
    have hread := readLine_piece prompts hpiece hcut
      fun hmode => hlines hmode piece List.mem_cons_self
    have hprompts : prompts + promptsFor mode (pieces.length + 1) =
        prompts + promptsFor mode 1 + promptsFor mode pieces.length := by
      rw [promptsFor_add, Nat.add_assoc, Nat.add_comm (promptsFor mode 1)]
    rw [List.length_cons, hprompts] at hlast
    obtain ⟨bound, rfl⟩ := Nat.exists_eq_add_one.2
      (Nat.zero_lt_of_lt (Nat.lt_of_succ_lt_succ hbound))
    have hrest := ih (fun hmode other hmem => hlines hmode other (List.mem_cons_of_mem _ hmem))
      hlast bound (Nat.lt_of_succ_lt_succ hbound)
    rw [readLines, hread]
    simp only [hrest, Bool.false_eq_true, if_false, List.map_cons, Text.unlines_cons]

/-- `readProgram` reads the bytes of a text to their end, unless a line of it is the `sentinel` of a
program that is typed in. There is a prompt for every line and one for the end. -/
theorem readProgram_bytes (mode : InputMode) (text : List Char)
    (hlines : mode = .interactive → sentinel ∉ Text.lines text) :
    (ofBytes mode (Text.bytes text)).readProgram =
      (.ok (Text.unlines (Text.lines text)),
        ⟨mode, [], true, promptsFor mode ((Text.lines text).length + 1)⟩) := by
  have hcut := cut_pieces text [] (.inl rfl)
  rw [List.append_nil] at hcut
  have hprompts : 0 + promptsFor mode (Text.pieces text).length + promptsFor mode 1 =
      promptsFor mode ((Text.lines text).length + 1) := by
    rw [Text.lines, List.length_map, promptsFor_add, Nat.zero_add]
  have hlast := readLine_nil mode (0 + promptsFor mode (Text.pieces text).length)
  rw [hprompts] at hlast
  refine readLines_cut hcut (fun hmode piece hmem hpiece => hlines hmode ?_) hlast rfl ?_
  · exact List.mem_map.2 ⟨piece, hmem, hpiece⟩
  · exact Nat.lt_succ_of_le hcut.length_le

/-- `readProgram` reads what is typed in up to the `sentinel` and leaves what stands behind it.
There is a prompt for every line and one for the sentinel. -/
theorem readProgram_sentinel {text close : List Char}
    (htext : text = [] ∨ text.getLast? = some '\n') (hlines : sentinel ∉ Text.lines text)
    (hclose : close = ['\n'] ∨ close = ['\r', '\n']) (rest : List UInt8) :
    (ofBytes .interactive (Text.bytes (text ++ sentinel ++ close) ++ rest)).readProgram =
      (.ok (Text.unlines (Text.lines text)),
        ⟨.interactive, rest, true, (Text.lines text).length + 1⟩) := by
  have hcut := cut_pieces text (Text.bytes (sentinel ++ close) ++ rest) (.inr htext)
  rw [← List.append_assoc, ← Text.bytes_append, ← List.append_assoc] at hcut
  have hsentinel : cutLine (Text.bytes (sentinel ++ close) ++ rest) =
      (Text.bytes (sentinel ++ close), rest) := by
    rcases hclose with rfl | rfl <;> rfl
  have htrim : Text.trimNewline (sentinel ++ close) = sentinel := by
    rcases hclose with rfl | rfl <;> decide
  have hlength : (Text.lines text).length = 0 + (Text.pieces text).length := by
    rw [Text.lines, List.length_map, Nat.zero_add]
  rw [hlength]
  refine readLines_cut hcut (fun _ piece hmem hpiece => hlines ?_)
    (readLine_sentinel hsentinel htrim) rfl ?_
  · exact List.mem_map.2 ⟨piece, hmem, hpiece⟩
  · exact Nat.lt_succ_of_le (Nat.le_of_add_right_le hcut.length_le)

end Input

namespace Token

/-- The program that `Input.readProgram` reads from the file of a text has the tokens of the text,
or its lexical error, at the same places (`ofText`). This holds of every text: reading takes off the
ends of lines, and no token stands there. -/
theorem ofText_readProgram (text : List Char) :
    ∃ program input, (Input.ofBytes .file (Text.bytes text)).readProgram = (.ok program, input) ∧
      ofText program = ofText text :=
  ⟨_, _, Input.readProgram_bytes .file text nofun, ofText_unlines_lines text⟩

end Token

end UnitScript

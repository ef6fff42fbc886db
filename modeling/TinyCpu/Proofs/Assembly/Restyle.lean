import TinyCpu.Proofs.Assembly.Concatenation

/-!
# Comments, blanks and line ends

What a line holds is its code without the blanks around it, so nothing else about a text matters,
except for the numbers of its lines.

* `contents`             the lines that hold something, without their texts as written;
* `Restyle`, `Restyled`  one edit that keeps what the lines hold, and any number of them, with the
                         number of lines inserted above each line;
* `Restyle.contents_eq`  an edit moves lines down, and does nothing else to them;
* `assemble_restyled`    neither do edits to the assembly, or to its error.
-/

namespace TinyCpu
open Text

/-! ## The code of a line -/

namespace Line

theorem code_append_comment (raw c : Text) : code (raw ++ ';' :: c) = code raw := by
  unfold code
  rw [List.takeWhile_append]
  split
  · next hall =>
    rw [List.takeWhile_cons_of_neg (by decide), List.append_nil]
    exact ((List.takeWhile_prefix _).eq_of_length hall).symm
  · rfl

theorem code_blanks_append (left raw : Text) (h : Blanks left) :
    code (left ++ raw) = left ++ code raw := by
  apply List.takeWhile_append_of_pos
  intro c hc
  rw [bne_iff_ne]
  rintro rfl
  exact absurd (h ';' hc) (by decide)

theorem trim_code_blanks_append (left raw : Text) (h : Blanks left) :
    trim (code (left ++ raw)) = trim (code raw) := by
  rw [code_blanks_append left raw h, trim_blanks_append left _ h]

theorem trim_code_append_blanks (raw right : Text) (h : Blanks right) :
    trim (code (raw ++ right)) = trim (code raw) := by
  have hright : code right = right := by
    have hcode := code_blanks_append right [] h
    rwa [List.append_nil, show code [] = [] from rfl, List.append_nil] at hcode
  unfold code at hright ⊢
  rw [List.takeWhile_append, hright]
  split
  · next hall =>
    rw [(List.takeWhile_prefix _).eq_of_length hall]
    exact trim_append_blanks raw right h
  · rfl

theorem trim_code_dropReturn (raw : Text) : trim (code (dropReturn raw)) = trim (code raw) := by
  unfold dropReturn
  split
  · next hlast =>
    obtain ⟨t, rfl⟩ := List.getLast?_eq_some_iff.mp hlast
    rw [List.dropLast_concat]
    exact (trim_code_append_blanks t ['\r'] (by decide)).symm
  · rfl

def content (line : Line) : Line := { line with raw := [] }

theorem content_read? (number : Nat) {raw raw' : Text} (h : trim (code raw) = trim (code raw')) :
    (read? number raw).map content = (read? number raw').map content := by
  rw [read?_eq, read?_eq, h]
  split <;> rfl

/-- the line with `k i` lines more above it, `i` being its number -/
def shift (k : Nat → Nat) (line : Line) : Line := line.moveDown (k line.number)

theorem shift_zero : shift (fun _ => 0) = id := rfl

theorem shift_comp (j k : Nat → Nat) :
    shift j ∘ shift k = shift fun i => k i + j (i + k i) := by
  funext line
  exact line.moveDown_moveDown (k line.number) (j (line.number + k line.number))

end Line

/-! ## The contents of a text -/

/-- the lines of a text that hold something, without their texts as written -/
def contents (source : Text) : List Line := (sourceLines source).map Line.content

theorem contents_append (s t : Text) (hs : Terminated '\n' s) :
    contents (s ++ t) = contents s ++ (contents t).map (Line.moveDown (s.count '\n')) := by
  unfold contents
  rw [sourceLines_append s t hs, List.map_append, List.map_map, List.map_map]
  rfl

theorem contents_of_not_mem (raw : Text) (h : '\n' ∉ raw) :
    contents raw = ((Line.read? 1 raw).map Line.content).toList := by
  by_cases hne : raw = []
  · subst hne
    rfl
  · unfold contents
    rw [sourceLines_eq, lines_of_not_mem raw hne h, linesFrom_cons]
    cases Line.read? 1 raw <;> rfl

/-- a line end, with a carriage return or not, adds nothing -/
theorem contents_newline (raw : Text) (h : '\n' ∉ raw) :
    contents (raw ++ ['\n']) = contents raw := by
  rw [contents_of_not_mem raw h, ← Line.content_read? 1 (Line.trim_code_dropReturn raw)]
  unfold contents
  rw [sourceLines_eq, lines_newline raw h, linesFrom_cons]
  cases Line.read? 1 (dropReturn raw) <;> rfl

theorem contents_line (raw rest : Text) (h : '\n' ∉ raw) :
    contents (raw ++ '\n' :: rest) = contents raw ++ (contents rest).map (Line.moveDown 1) := by
  have hcount : (raw ++ ['\n']).count '\n' = 1 := by
    rw [List.count_append, List.count_eq_zero.mpr h]
    rfl
  have happend := contents_append (raw ++ ['\n']) rest (.inr List.getLast?_concat)
  rwa [hcount, contents_newline raw h, List.append_assoc] at happend

theorem contents_congr {raw raw' : Text} (h : '\n' ∉ raw) (h' : '\n' ∉ raw')
    (hcode : trim (Line.code raw) = trim (Line.code raw')) : contents raw = contents raw' := by
  rw [contents_of_not_mem raw h, contents_of_not_mem raw' h', Line.content_read? 1 hcode]

/-- what stands behind a line: nothing, or a line end and more lines -/
inductive LineEnd : Text → Prop
  | last : LineEnd []
  | newline (rest : Text) : LineEnd ('\n' :: rest)
  | returned (rest : Text) : LineEnd ('\r' :: '\n' :: rest)

/-- a line can be replaced by one with the same code -/
theorem contents_replace {above raw raw' below : Text} (ha : Terminated '\n' above)
    (hb : LineEnd below) (h : '\n' ∉ raw) (h' : '\n' ∉ raw')
    (hcode : trim (Line.code raw) = trim (Line.code raw')) :
    contents (above ++ raw ++ below) = contents (above ++ raw' ++ below) := by
  have hline : contents (raw ++ below) = contents (raw' ++ below) := by
    cases hb with
    | last =>
      rw [List.append_nil, List.append_nil]
      exact contents_congr h h' hcode
    | newline rest =>
      rw [contents_line raw rest h, contents_line raw' rest h', contents_congr h h' hcode]
    | returned rest =>
      have hreturn : ∀ t : Text, '\n' ∉ t → contents (t ++ '\r' :: '\n' :: rest) =
          contents t ++ (contents rest).map (Line.moveDown 1) := by
        intro t ht
        have hmem : '\n' ∉ t ++ ['\r'] := by simpa using ht
        have hcontents := contents_line (t ++ ['\r']) rest hmem
        rwa [contents_congr hmem ht (Line.trim_code_append_blanks t ['\r'] (by decide)),
          List.append_assoc] at hcontents
      rw [hreturn raw h, hreturn raw' h', contents_congr h h' hcode]
  rw [List.append_assoc, List.append_assoc, contents_append above _ ha, contents_append above _ ha,
    hline]

/-! ## Edits -/

/-- a line that holds blanks only, or blanks and a comment -/
inductive Filler : Text → Prop
  | blank {t : Text} (h : Blanks t) (hn : '\n' ∉ t) : Filler t
  | comment {left c : Text} (h : Blanks left) (hn : '\n' ∉ left ++ c) : Filler (left ++ ';' :: c)

theorem Filler.not_mem {t : Text} (h : Filler t) : '\n' ∉ t := by
  cases h with
  | blank _ hn => exact hn
  | comment _ hn => simpa using hn

theorem Filler.contents_eq {t : Text} (h : Filler t) : contents t = [] := by
  have hcode : trim (Line.code t) = trim (Line.code []) := by
    cases h with
    | blank hb =>
      have htrim := Line.trim_code_append_blanks [] t hb
      rwa [List.nil_append] at htrim
    | @comment left c hb =>
      have htrim := Line.trim_code_append_blanks [] left hb
      rwa [List.nil_append, ← Line.code_append_comment left c] at htrim
  rw [contents_congr h.not_mem List.not_mem_nil hcode]
  rfl

/-- one edit that keeps what the lines of a text hold, with the number of lines that it inserts
above line `i` -/
inductive Restyle : Text → Text → (Nat → Nat) → Prop
  /-- a line without code above other lines -/
  | insert {above below filler : Text} (ha : Terminated '\n' above) (hf : Filler filler) :
      Restyle (above ++ below) (above ++ filler ++ '\n' :: below)
        fun i => if above.count '\n' < i then 1 else 0
  /-- a line without code below all lines -/
  | insertLast {source filler : Text} (hf : Filler filler) :
      Restyle source (source ++ '\n' :: filler) fun _ => 0
  /-- a comment behind a line -/
  | comment {above raw below c : Text} (ha : Terminated '\n' above) (hb : LineEnd below)
      (hraw : '\n' ∉ raw) (hc : '\n' ∉ c) :
      Restyle (above ++ raw ++ below) (above ++ (raw ++ ';' :: c) ++ below) fun _ => 0
  /-- blanks around a line -/
  | indent {above raw below left right : Text} (ha : Terminated '\n' above) (hb : LineEnd below)
      (hraw : '\n' ∉ raw) (hl : Blanks left) (hr : Blanks right) (hn : '\n' ∉ left ++ right) :
      Restyle (above ++ raw ++ below) (above ++ (left ++ raw ++ right) ++ below) fun _ => 0
  /-- a carriage return in front of a newline -/
  | returned {before after : Text} :
      Restyle (before ++ '\n' :: after) (before ++ '\r' :: '\n' :: after) fun _ => 0

/-- any number of edits, with the number of lines that they insert above line `i` of the text they
start from -/
inductive Restyled (s : Text) : Text → (Nat → Nat) → Prop
  | refl : Restyled s s fun _ => 0
  | tail {t u : Text} {k j : Nat → Nat} (h : Restyled s t k) (hstep : Restyle t u j) :
      Restyled s u fun i => k i + j (i + k i)

/-! ## One edit -/

theorem number_of_mem_contents (source : Text) (line : Line) (h : line ∈ contents source) :
    1 ≤ line.number ∧ line.number < 1 + (lines source).length := by
  obtain ⟨x, hx, rfl⟩ := List.mem_map.mp h
  exact number_of_mem_linesFrom 1 (lines source) x hx

theorem contents_insert {above below filler : Text} (ha : Terminated '\n' above)
    (hf : Filler filler) :
    contents (above ++ filler ++ '\n' :: below) = (contents (above ++ below)).map
      (Line.shift fun i => if above.count '\n' < i then 1 else 0) := by
  have habove : ∀ line ∈ contents above,
      Line.shift (fun i => if above.count '\n' < i then 1 else 0) line = line := by
    intro line hline
    have hlt := (number_of_mem_contents above line hline).2
    rw [length_lines_of_terminated above ha] at hlt
    show line.moveDown (if above.count '\n' < line.number then 1 else 0) = line
    rw [if_neg (by omega)]
    rfl
  have hbelow : ∀ line ∈ contents below,
      Line.shift (fun i => if above.count '\n' < i then 1 else 0)
        (line.moveDown (above.count '\n')) = (line.moveDown 1).moveDown (above.count '\n') := by
    intro line hline
    have hpos := (number_of_mem_contents below line hline).1
    show (line.moveDown _).moveDown
      (if above.count '\n' < line.number + above.count '\n' then 1 else 0) = _
    rw [if_pos (by omega), Line.moveDown_moveDown, Line.moveDown_moveDown, Nat.add_comm]
  rw [List.append_assoc, contents_append above _ ha, contents_append above _ ha,
    contents_line filler below hf.not_mem, hf.contents_eq, List.nil_append, List.map_append,
    List.map_congr_left habove, List.map_id', List.map_map, List.map_map]
  exact congrArg _ (List.map_congr_left hbelow).symm

/-- an edit moves lines down, and does nothing else to them -/
theorem Restyle.contents_eq {t u : Text} {j : Nat → Nat} (h : Restyle t u j) :
    contents u = (contents t).map (Line.shift j) := by
  cases h with
  | insert ha hf => exact contents_insert ha hf
  | @insertLast source filler hf =>
    obtain ⟨above, raw, rfl, ha, hraw⟩ := exists_terminated_append '\n' t
    rw [Line.shift_zero, List.map_id, List.append_assoc, contents_append above _ ha,
      contents_append above _ ha, contents_line raw filler hraw, hf.contents_eq, List.map_nil,
      List.append_nil]
  | @comment above raw below c ha hb hraw hc =>
    have hcomment : '\n' ∉ raw ++ ';' :: c := by simp [hraw, hc]
    rw [Line.shift_zero, List.map_id]
    exact contents_replace ha hb hcomment hraw (by rw [Line.code_append_comment])
  | @indent above raw below left right ha hb hraw hl hr hn =>
    have hindent : '\n' ∉ left ++ raw ++ right := by
      simp only [List.mem_append, not_or] at hn ⊢
      exact ⟨⟨hn.1, hraw⟩, hn.2⟩
    rw [Line.shift_zero, List.map_id]
    apply contents_replace ha hb hindent hraw
    rw [Line.trim_code_append_blanks _ right hr, Line.trim_code_blanks_append left raw hl]
  | @returned before after =>
    obtain ⟨above, raw, rfl, ha, hraw⟩ := exists_terminated_append '\n' before
    have hreturn : '\n' ∉ raw ++ ['\r'] := by simpa using hraw
    have hreplace := contents_replace ha (.newline after) hreturn hraw
      (Line.trim_code_append_blanks raw ['\r'] (by decide))
    rw [Line.shift_zero, List.map_id, ← hreplace]
    simp

/-! ## Any number of edits -/

theorem Restyled.contents_eq {s t : Text} {k : Nat → Nat} (h : Restyled s t k) :
    contents t = (contents s).map (Line.shift k) := by
  induction h with
  | refl => rw [Line.shift_zero, List.map_id]
  | tail _ hstep ih => rw [hstep.contents_eq, ih, List.map_map, Line.shift_comp]

/-- the same fault, `k i` lines further down if it was at line `i` -/
structure LineError.Shifted (k : Nat → Nat) (e e' : LineError) : Prop where
  fault : e'.fault = e.fault
  line : e'.line = e.line + k e.line

/-- the same label and body, `k i` lines further down if the line had number `i` -/
structure Line.Moved (k : Nat → Nat) (line line' : Line) : Prop where
  number : line'.number = line.number + k line.number
  label : line'.label = line.label
  body : line'.body = line.body

theorem Restyled.forall₂_sourceLines {s t : Text} {k : Nat → Nat} (h : Restyled s t k) :
    List.Forall₂ (Line.Moved k) (sourceLines s) (sourceLines t) := by
  have hcontents := h.contents_eq.symm
  unfold contents at hcontents
  rw [List.map_map, ← List.forall₂_eq_eq_eq, List.forall₂_map_left_iff,
    List.forall₂_map_right_iff] at hcontents
  refine hcontents.imp fun line line' heq => ?_
  obtain ⟨hnumber, -, hlabel, hbody⟩ := Line.mk.inj heq
  exact ⟨hnumber.symm, hlabel.symm, hbody.symm⟩

section
variable {k : Nat → Nat} {line line' : Line} (h : line.Moved k line')
include h

theorem Line.Moved.pin {α : Type} (x : Except LineFault α) :
    Agree (LineError.Shifted k) Eq (line.pin x) (line'.pin x) := by
  cases x with
  | ok a => exact .ok rfl
  | error fault => exact .error ⟨rfl, h.number⟩

theorem Line.Moved.addLine_layout (set : InstructionSet) (l : Layout) :
    Agree (LineError.Shifted k) Eq (l.addLine set line) (l.addLine set line') := by
  unfold Layout.addLine
  rw [h.label, h.body]
  exact h.pin _

theorem Line.Moved.addLine_emission (set : InstructionSet) (symbols : Symbols) (e : Emission) :
    Agree (LineError.Shifted k) Eq (e.addLine set symbols line) (e.addLine set symbols line') := by
  unfold Emission.addLine
  rw [h.body]
  exact h.pin _

end

theorem Restyled.assemble_agree {s t : Text} {k : Nat → Nat} (h : Restyled s t k)
    (set : InstructionSet) :
    Agree (LineError.Shifted k) Eq (assemble set s) (assemble set t) := by
  have hlines := h.forall₂_sourceLines
  have hlayout : Agree (LineError.Shifted k) Eq (layOut set (sourceLines s))
      (layOut set (sourceLines t)) :=
    Agree.foldlM hlines (fun l _ _ hline => hline.addLine_layout set l) {}
  have hemit : ∀ symbols, Agree (LineError.Shifted k) Eq (emit set symbols (sourceLines s))
      (emit set symbols (sourceLines t)) := by
    intro symbols
    have hrun := Agree.foldlM hlines (fun e _ _ hline => hline.addLine_emission set symbols e) {}
    exact hrun.map fun e e' he => congrArg Emission.image he
  refine hlayout.bind fun l l' hl => ?_
  rw [← hl]
  exact (hemit l.symbols).map fun image image' himage => congrArg _ himage

/-- **Comments, empty lines, indentation and line ends have no effect.**  After any number of
edits, a text has the same symbols and the same image as before, or the same fault; the line of the
fault has moved down by the number of lines inserted above it. -/
theorem assemble_restyled (set : InstructionSet) (s t : Text) (k : Nat → Nat)
    (h : Restyled s t k) :
    (∃ asm, assemble set s = .ok asm ∧ assemble set t = .ok asm) ∨
    ∃ e e', assemble set s = .error e ∧ assemble set t = .error e' ∧ e'.fault = e.fault ∧
      e'.line = e.line + k e.line := by
  obtain hok | ⟨e, e', he, he', hshift⟩ := (h.assemble_agree set).ok_or_error
  · exact .inl hok
  · exact .inr ⟨e, e', he, he', hshift.fault, hshift.line⟩

/-- an error in the second line of a text, and in the third one after four edits -/
theorem assemble_restyled_moved :
    ∃ k e', Restyled "NOP\nJMP far".toList " NOP ; one\r\n\t;two\nJMP far".toList k ∧ k 2 = 1 ∧
      assemble .standard " NOP ; one\r\n\t;two\nJMP far".toList = .error e' ∧
      e'.fault = .undefinedLabel "far".toList ∧ e'.line = 3 := by
  have hindented : Restyled "NOP\nJMP far".toList " NOP \nJMP far".toList _ :=
    .tail .refl (@Restyle.indent [] "NOP".toList "\nJMP far".toList [' '] [' '] (by decide)
      (.newline _) (by decide) (by decide) (by decide) (by decide))
  have hcommented : Restyled "NOP\nJMP far".toList " NOP ; one\nJMP far".toList _ :=
    .tail hindented (@Restyle.comment [] " NOP ".toList "\nJMP far".toList " one".toList (by decide)
      (.newline _) (by decide) (by decide))
  have hreturned : Restyled "NOP\nJMP far".toList " NOP ; one\r\nJMP far".toList _ :=
    .tail hcommented (@Restyle.returned " NOP ; one".toList "JMP far".toList)
  have hinserted : Restyled "NOP\nJMP far".toList " NOP ; one\r\n\t;two\nJMP far".toList _ :=
    .tail hreturned (@Restyle.insert " NOP ; one\r\n".toList "JMP far".toList "\t;two".toList
      (by decide) (@Filler.comment "\t".toList "two".toList (by decide) (by decide)))
  have herror : assemble .standard "NOP\nJMP far".toList =
      .error ⟨.undefinedLabel "far".toList, 2, "JMP far".toList⟩ := by decide +kernel
  obtain ⟨asm, hok, -⟩ | ⟨e, e', he, he', hfault, hline⟩ :=
    assemble_restyled .standard _ _ _ hinserted
  · exact absurd (herror.symm.trans hok) (by simp)
  · obtain rfl := Except.error.inj (herror.symm.trans he)
    exact ⟨_, e', hinserted, rfl, he', hfault, hline⟩

end TinyCpu

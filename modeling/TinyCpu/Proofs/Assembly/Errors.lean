import TinyCpu.Proofs.Assembly.Concatenation
import TinyCpu.Proofs.Isa.Specificity

/-!
# The first error of a program

Which line the error of a program text is about, and what it says.

* `Line.FaultBelow`        what the first reading finds wrong with a line, given the lines above it;
* `Line.Accepts`, `Line.Rejects`   what the second reading finds of the operands of a line;
* `layOut_eq_error_iff`    the first reading stops at the first line with a fault;
* `emit_eq_error_iff`      the second one at the first line with a rejected operand;
* `assemble_first_error`   both readings together, for the CPU's instructions.
-/

namespace TinyCpu
open Text

theorem pin_eq_error_iff {α : Type} (line : Line) (x : Except LineFault α) (e : LineError) :
    line.pin x = .error e ↔ x = .error e.fault ∧ e.line = line.number ∧ e.text = trim line.raw := by
  cases x with
  | ok a => simp [Line.pin]
  | error fault =>
    constructor
    · intro h
      obtain rfl := Except.error.inj h
      exact ⟨rfl, rfl, rfl⟩
    · obtain ⟨fault', number, text⟩ := e
      rintro ⟨h, rfl, rfl⟩
      obtain rfl := Except.error.inj h
      rfl

/-- the faults that are about the value of an operand -/
def LineFault.isOperandFault : LineFault → Bool
  | undefinedLabel _ | outOfRange _ | malformedNumber _ => true
  | _ => false

/-! ## The first reading -/

/-- what is wrong with a line below others: its label is one of theirs, or, with a new label or
none, its body cannot be read -/
inductive Line.FaultBelow (set : InstructionSet) (above : List Line) (line : Line) :
    LineFault → Prop
  | duplicate (name : Text) (x : Line) (hname : line.label = some name) (hx : x ∈ above)
      (hsame : x.SameLabel line) : FaultBelow set above line (.duplicateLabel (lower name))
  | unread (fault : LineFault) (hnew : ∀ x ∈ above, ¬ x.SameLabel line)
      (hread : Statement.read set line.body = .error fault) : FaultBelow set above line fault

theorem Statement.isOperandFault_of_read {set : InstructionSet} {body : Text} {fault : LineFault}
    (h : Statement.read set body = .error fault) : fault.isOperandFault = false := by
  unfold read at h
  split at h
  · exact absurd h (by simp)
  · split at h
    · exact absurd h (by simp)
    · dsimp only at h
      split at h
      · unfold readData at h
        split at h
        · obtain rfl := Except.error.inj h
          rfl
        · split at h
          · obtain rfl := Except.error.inj h
            rfl
          · exact absurd h (by simp)
      · obtain rfl := Except.error.inj h
        rfl

theorem Line.FaultBelow.isOperandFault {set : InstructionSet} {above : List Line} {line : Line}
    {fault : LineFault} (h : line.FaultBelow set above fault) : fault.isOperandFault = false := by
  cases h with
  | duplicate => rfl
  | unread _ _ hread => exact Statement.isOperandFault_of_read hread

theorem contains_layout_iff {set : InstructionSet} {above : List Line} {p : Program}
    (hp : p.Reads set above) (line : Line) (name : Text) (hname : line.label = some name) :
    p.layout.symbols.contains (lower name) = true ↔ ∃ x ∈ above, x.SameLabel line := by
  rw [p.contains_symbols_iff, hp.mem_labels_iff]
  constructor
  · rintro ⟨x, hx, m, hm, heq⟩
    exact ⟨x, hx, m, name, hm, hname, heq⟩
  · rintro ⟨x, hx, m, n, hm, hn, heq⟩
    obtain rfl := Option.some.inj (hn.symm.trans hname)
    exact ⟨x, hx, m, hm, heq⟩

/-- one line fails on its own fault, given the lines above it -/
theorem Layout.bind_reserve_eq_error_iff {set : InstructionSet} {above : List Line} {l : Layout}
    (hl : layOut set above = .ok l) (line : Line) (fault : LineFault) :
    ((l.bind line.label).bind fun l => l.reserve set line.body) = .error fault ↔
      line.FaultBelow set above fault := by
  obtain ⟨p, hp, -, rfl⟩ := (layOut_eq_ok_iff set above l).mp hl
  have hreserve : ∀ l' : Layout, l'.reserve set line.body = .error fault ↔
      Statement.read set line.body = .error fault := fun l' => map_eq_error_iff _ _ _
  cases hname : line.label with
  | none =>
    have hnew : ∀ x ∈ above, ¬ x.SameLabel line := by
      rintro x - ⟨m, n, -, hn, -⟩
      exact absurd (hn.symm.trans hname) (by simp)
    refine (hreserve p.layout).trans ⟨.unread fault hnew, fun h => ?_⟩
    cases h with
    | duplicate _ _ hn => exact absurd (hname.symm.trans hn) (by simp)
    | unread _ _ hread => exact hread
  | some name =>
    have hbound := contains_layout_iff hp line name hname
    show ((p.layout.symbols.define name p.layout.size).map _).bind _ = _ ↔ _
    unfold Symbols.define
    by_cases hin : p.layout.symbols.contains (lower name) = true
    · obtain ⟨x, hx, hsame⟩ := hbound.mp hin
      rw [if_pos hin]
      constructor
      · intro h
        rw [← Except.error.inj h]
        exact .duplicate name x hname hx hsame
      · intro h
        cases h with
        | duplicate name' _ hname' =>
          rw [Option.some.inj (hname.symm.trans hname')]
          rfl
        | unread _ hnew _ => exact absurd hsame (hnew x hx)
    · have hnew : ∀ x ∈ above, ¬ x.SameLabel line :=
        fun x hx hsame => hin (hbound.mpr ⟨x, hx, hsame⟩)
      rw [if_neg hin]
      refine (hreserve _).trans ⟨.unread fault hnew, fun h => ?_⟩
      cases h with
      | duplicate _ x _ hx hsame => exact absurd hsame (hnew x hx)
      | unread _ _ hread => exact hread

/-- **The first reading stops at the first line with a fault**, and reports it there. -/
theorem layOut_eq_error_iff (set : InstructionSet) (source : List Line) (e : LineError) :
    layOut set source = .error e ↔ ∃ above line below, source = above ++ line :: below ∧
      (∃ l, layOut set above = .ok l) ∧ line.FaultBelow set above e.fault ∧
        e.line = line.number ∧ e.text = trim line.raw := by
  unfold layOut
  rw [foldlM_eq_error_iff]
  constructor
  · rintro ⟨above, line, below, l, rfl, hl, hadd⟩
    obtain ⟨hfault, hpin⟩ := (pin_eq_error_iff _ _ _).mp hadd
    exact ⟨above, line, below, rfl, ⟨l, hl⟩,
      (Layout.bind_reserve_eq_error_iff hl line e.fault).mp hfault, hpin⟩
  · rintro ⟨above, line, below, rfl, ⟨l, hl⟩, hfault, hpin⟩
    exact ⟨above, line, below, l, rfl, hl, (pin_eq_error_iff _ _ _).mpr
      ⟨(Layout.bind_reserve_eq_error_iff hl line e.fault).mpr hfault, hpin⟩⟩

theorem exists_means_of_layOut {set : InstructionSet} {source : List Line} {l : Layout}
    (h : layOut set source = .ok l) : ∀ line ∈ source, ∃ s, Statement.Means set line.body s := by
  obtain ⟨p, hp⟩ := Layout.reads_of_foldlM set source {} l h
  intro line hline
  rw [← hp.lines] at hline
  obtain ⟨q, hq, rfl⟩ := List.mem_map.mp hline
  exact ⟨q.2, hp.bodies q hq⟩

theorem exists_layOut_error {set : InstructionSet} {above : List Line} {line : Line}
    {fault : LineFault} (below : List Line) (h : line.FaultBelow set above fault) :
    ∃ e, layOut set (above ++ line :: below) = .error e := by
  cases hl : layOut set (above ++ line :: below) with
  | error e => exact ⟨e, rfl⟩
  | ok l =>
    obtain ⟨-, ⟨l', hl'⟩, hnew⟩ := (layOut_append_iff set above (line :: below)).mp ⟨l, hl⟩
    cases h with
    | duplicate _ x _ hx hsame => exact absurd hsame (hnew x hx line List.mem_cons_self)
    | unread _ _ hread =>
      obtain ⟨s, hs⟩ := exists_means_of_layOut hl' line List.mem_cons_self
      exact absurd (hs.read_eq.symm.trans hread) (by simp)

/-! ## Operands -/

theorem isOperandFault_of_operandByte {symbols : Symbols} {t : Text} {fault : LineFault}
    (h : operandByte symbols t = .error fault) : fault.isOperandFault = true := by
  have hnumber : ∀ v, numberByte (operandBody t) v = .error fault →
      fault.isOperandFault = true := by
    intro v hv
    rcases (numberByte_eq_error_iff _ v fault).mp hv with ⟨-, rfl⟩ | ⟨_, -, -, rfl⟩ <;> rfl
  rw [operandByte_eq] at h
  split at h
  · obtain rfl := Except.error.inj h
    rfl
  split at h
  · exact hnumber _ h
  split at h
  · exact hnumber _ h
  rcases (labelByte_eq_error_iff _ _ fault).mp h with ⟨-, rfl⟩ | ⟨_, -, -, rfl⟩ <;> rfl

/-- the texts of a statement that stand for bytes -/
def Statement.operands : Statement → List Text
  | blank => []
  | instruction m => m.operand.toList
  | data items => items

theorem InstructionSet.isSome_operand_iff (set : InstructionSet) (t : Text) (m : Match)
    (h : set.resolve? t = some m) :
    m.operand.isSome = true ↔ ∃ slot ∈ m.form.slots, slot.isRegister = false := by
  constructor
  · intro ho
    obtain ⟨operand, ho'⟩ := Option.isSome_iff_exists.mp ho
    exact set.resolve?_slot t operand m h ho'
  · rintro ⟨slot, hslot, hregister⟩
    have hfits := (Form.matches_iff m.form t).mpr (set.resolve?_specific t m h).2.1
    unfold Form.fits at hfits
    rw [Bool.and_eq_true, Bool.and_eq_true, beq_iff_eq] at hfits
    obtain ⟨⟨-, hlength⟩, hall⟩ := hfits
    rw [set.operand_of_resolve? t m h]
    unfold Form.valueText?
    rw [← List.map_fst_zip (Nat.le_of_eq hlength)] at hslot
    obtain ⟨p, hp, rfl⟩ := List.mem_map.mp hslot
    cases hfind : (m.form.slots.zip (Operand.ofLine t)).find? fun p => !p.1.isRegister with
    | none => exact absurd (List.find?_eq_none.mp hfind p hp) (by simp [hregister])
    | some q =>
      have hq := List.all_eq_true.mp hall q (List.mem_of_find?_eq_some hfind)
      exact Slot.isSome_text?_of_fits q.2 q.1 hq (by simpa using List.find?_some hfind)

theorem InstructionSet.byte_iff_of_mem_table (f : Form) (h : f ∈ table) :
    f.encoding = .byte ↔ ∃ slot ∈ f.slots, slot.isRegister = false := by
  have hall : (table.all fun f => (f.encoding == .byte) == f.slots.any fun s => !s.isRegister) =
      true := by decide
  have hf := List.all_eq_true.mp hall f h
  rw [beq_iff_eq, Bool.eq_iff_iff, beq_iff_eq, List.any_eq_true] at hf
  simpa using hf

theorem Statement.Means.bytes_eq_mapM {body : Text} {s : Statement} (h : Means .standard body s)
    (symbols : Symbols) :
    ∃ lead, s.bytes symbols = (s.operands.mapM (operandByte symbols)).map (lead ++ ·) := by
  cases h with
  | blank => exact ⟨[], rfl⟩
  | data _ _ list =>
    refine ⟨[], ?_⟩
    show (fields ',' list).mapM (operandByte symbols) =
      ((fields ',' list).mapM (operandByte symbols)).map ([] ++ ·)
    cases (fields ',' list).mapM (operandByte symbols) <;> rfl
  | instruction _ m _ hm =>
    refine ⟨[m.form.opcode], ?_⟩
    have hmem := (InstructionSet.standard.resolve?_specific body m hm).1
    have hbyte := InstructionSet.byte_iff_of_mem_table m.form hmem
    rw [← InstructionSet.standard.isSome_operand_iff body m hm] at hbyte
    show (m.operandBytes symbols).map _ =
      (m.operand.toList.mapM (operandByte symbols)).map _
    unfold Match.operandBytes
    cases ho : m.operand with
    | none =>
      have himplied : m.form.encoding = .implied := by
        cases he : m.form.encoding with
        | implied => rfl
        | byte => exact absurd (hbyte.mp he) (by simp [ho])
      rw [himplied]
      rfl
    | some t =>
      rw [hbyte.mpr (by rw [ho]; rfl), Option.toList_some, mapM_cons_eq]
      show ((operandByte symbols t).map _).map _ = _
      cases operandByte symbols t <;> rfl

/-! ## The second reading -/

/-- every operand of the line has a byte -/
def Line.Accepts (set : InstructionSet) (symbols : Symbols) (line : Line) : Prop :=
  ∃ s, Statement.Means set line.body s ∧ ∀ t ∈ s.operands, ∃ b, operandByte symbols t = .ok b

/-- the first operand of the line without a byte has this fault -/
def Line.Rejects (set : InstructionSet) (symbols : Symbols) (line : Line) (fault : LineFault) :
    Prop :=
  ∃ s before t after, Statement.Means set line.body s ∧ s.operands = before ++ t :: after ∧
    (∀ u ∈ before, ∃ b, operandByte symbols u = .ok b) ∧ operandByte symbols t = .error fault

theorem Line.Rejects.isOperandFault {set : InstructionSet} {symbols : Symbols} {line : Line}
    {fault : LineFault} (h : line.Rejects set symbols fault) : fault.isOperandFault = true := by
  obtain ⟨_, _, _, _, -, -, -, ht⟩ := h
  exact isOperandFault_of_operandByte ht

theorem Line.encode_ok_iff (symbols : Symbols) (line : Line) :
    (∃ bs, line.encode .standard symbols = .ok bs) ↔ line.Accepts .standard symbols := by
  unfold Line.encode
  simp only [pin_eq_ok_iff, bind_eq_ok_iff, Statement.read_eq_ok_iff]
  constructor
  · rintro ⟨bs, s, hs, hbs⟩
    obtain ⟨lead, hlead⟩ := hs.bytes_eq_mapM symbols
    rw [hlead, map_eq_ok_iff] at hbs
    obtain ⟨operands, hoperands, -⟩ := hbs
    exact ⟨s, hs, (exists_mapM_eq_ok_iff _ _).mp ⟨operands, hoperands⟩⟩
  · rintro ⟨s, hs, hall⟩
    obtain ⟨lead, hlead⟩ := hs.bytes_eq_mapM symbols
    obtain ⟨operands, hoperands⟩ := (exists_mapM_eq_ok_iff _ _).mpr hall
    exact ⟨lead ++ operands, s, hs, by rw [hlead, hoperands]; rfl⟩

/-- a line whose body can be read fails on its first operand without a byte -/
theorem Line.encode_eq_error_iff (symbols : Symbols) (line : Line) (e : LineError)
    (h : ∃ s, Statement.Means .standard line.body s) :
    line.encode .standard symbols = .error e ↔
      line.Rejects .standard symbols e.fault ∧ e.line = line.number ∧ e.text = trim line.raw := by
  obtain ⟨s, hs⟩ := h
  obtain ⟨lead, hlead⟩ := hs.bytes_eq_mapM symbols
  unfold Line.encode
  rw [pin_eq_error_iff, hs.read_eq]
  show s.bytes symbols = .error e.fault ∧ _ ↔ _
  rw [hlead, map_eq_error_iff, mapM_eq_error_iff]
  refine and_congr_left fun _ => ⟨?_, ?_⟩
  · rintro ⟨before, t, after, hsplit, hbefore, ht⟩
    exact ⟨s, before, t, after, hs, hsplit, hbefore, ht⟩
  · rintro ⟨s', before, t, after, hs', hsplit, hbefore, ht⟩
    rw [hs.unique hs']
    exact ⟨before, t, after, hsplit, hbefore, ht⟩

/-- **The second reading stops at the first line with a rejected operand**, and reports it there. -/
theorem emit_eq_error_iff (symbols : Symbols) (source : List Line) (e : LineError)
    (h : ∀ line ∈ source, ∃ s, Statement.Means .standard line.body s) :
    emit .standard symbols source = .error e ↔ ∃ above line below,
      source = above ++ line :: below ∧ (∀ x ∈ above, x.Accepts .standard symbols) ∧
        line.Rejects .standard symbols e.fault ∧ e.line = line.number ∧
          e.text = trim line.raw := by
  rw [emit_eq, map_eq_error_iff, mapM_eq_error_iff]
  simp only [Line.encode_ok_iff]
  constructor
  · rintro ⟨above, line, below, rfl, habove, hline⟩
    have hmeans := h line (by simp)
    exact ⟨above, line, below, rfl, habove, (line.encode_eq_error_iff symbols e hmeans).mp hline⟩
  · rintro ⟨above, line, below, rfl, habove, hline⟩
    have hmeans := h line (by simp)
    exact ⟨above, line, below, rfl, habove, (line.encode_eq_error_iff symbols e hmeans).mpr hline⟩

/-! ## Both readings -/

theorem assemble_eq_error_iff (set : InstructionSet) (source : Text) (e : LineError) :
    assemble set source = .error e ↔ layOut set (sourceLines source) = .error e ∨
      ∃ l, layOut set (sourceLines source) = .ok l ∧
        emit set l.symbols (sourceLines source) = .error e := by
  unfold assemble
  rw [bind_eq_error_iff]
  simp only [map_eq_error_iff]

theorem exists_line_of_assemble_error {source : Text} {e : LineError}
    (h : assemble .standard source = .error e) : ∃ above line below,
      sourceLines source = above ++ line :: below ∧ e.line = line.number ∧
        e.text = trim line.raw := by
  rcases (assemble_eq_error_iff .standard source e).mp h with hl | ⟨l, hl, he⟩
  · obtain ⟨above, line, below, hsplit, -, -, hpin⟩ := (layOut_eq_error_iff _ _ e).mp hl
    exact ⟨above, line, below, hsplit, hpin⟩
  · obtain ⟨above, line, below, hsplit, -, -, hpin⟩ :=
      (emit_eq_error_iff l.symbols _ e (exists_means_of_layOut hl)).mp he
    exact ⟨above, line, below, hsplit, hpin⟩

/-- the lines above a line that holds something, and the text of that line, by its number -/
theorem sourceLines_eq_append_cons {source : Text} {above : List Line} {line : Line}
    {below : List Line} (h : sourceLines source = above ++ line :: below) :
    1 ≤ line.number ∧ line.number ≤ (lines source).length ∧
      (lines source)[line.number - 1]? = some line.raw ∧
      linesFrom 1 ((lines source).take (line.number - 1)) = above ∧
      linesFrom 1 ((lines source).take line.number) = above ++ [line] := by
  obtain ⟨raws, rest, hraws, hnumber, habove, hline⟩ := linesFrom_eq_append_cons 1 _ _ _ _ h
  have hsub : line.number - 1 = raws.length := by omega
  have htake : (lines source).take line.number = raws ++ [line.raw] := by
    rw [hraws, hnumber, Nat.add_comm, List.take_length_add_append]
    rfl
  refine ⟨by omega, ?_, ?_, ?_, ?_⟩
  · rw [hraws, List.length_append, List.length_cons]
    omega
  · rw [hsub, hraws, List.getElem?_append_right (Nat.le_refl _), Nat.sub_self]
    rfl
  · rw [hsub, hraws, List.take_left, habove]
  · rw [htake, hline]

/-- **An error is about the first offending line, and the first reading's errors win.**  The error
names a line of the text and quotes it trimmed.  If the first reading fails at a line, the lines
above it alone are fine, every text that begins with the same lines up to it has the same error, and
a label bound twice is reported before what is wrong with the body.  Otherwise the error is that of
the first operand without a byte, under all labels of the text.  A line with a fault of its own
anywhere keeps errors about operands from being reported. -/
theorem assemble_first_error (source : Text) :
    (∀ e, assemble .standard source = .error e →
      1 ≤ e.line ∧ e.line ≤ (lines source).length ∧
        ∃ raw, (lines source)[e.line - 1]? = some raw ∧ e.text = trim raw) ∧
    (∀ e, layOut .standard (sourceLines source) = .error e →
      (∃ above line below, sourceLines source = above ++ line :: below ∧ line.number = e.line ∧
        line.FaultBelow .standard above e.fault) ∧
      (∃ before after, source = before ++ after ∧
        lines before = (lines source).take (e.line - 1)) ∧
      (∀ before, lines before = (lines source).take (e.line - 1) →
        ∃ l, layOut .standard (sourceLines before) = .ok l) ∧
      ∀ other, (lines other).take e.line = (lines source).take e.line →
        layOut .standard (sourceLines other) = .error e ∧ assemble .standard other = .error e) ∧
    (∀ l e, layOut .standard (sourceLines source) = .ok l →
      assemble .standard source = .error e →
      e.fault.isOperandFault = true ∧
        ∃ above line below, sourceLines source = above ++ line :: below ∧ line.number = e.line ∧
          (∀ x ∈ above, x.Accepts .standard l.symbols) ∧
          line.Rejects .standard l.symbols e.fault) ∧
    ∀ above line below fault, sourceLines source = above ++ line :: below →
      line.FaultBelow .standard above fault →
      ∃ e, assemble .standard source = .error e ∧ e.fault.isOperandFault = false := by
  refine ⟨?_, ?_, ?_, ?_⟩
  · intro e he
    obtain ⟨above, line, below, hsplit, hline, htext⟩ := exists_line_of_assemble_error he
    obtain ⟨hone, hle, hraw, -, -⟩ := sourceLines_eq_append_cons hsplit
    rw [hline]
    exact ⟨hone, hle, line.raw, hraw, htext⟩
  · intro e he
    obtain ⟨above, line, below, hsplit, habove, hfault, hline, htext⟩ :=
      (layOut_eq_error_iff _ _ e).mp he
    obtain ⟨hone, hle, -, htake, htake'⟩ := sourceLines_eq_append_cons hsplit
    rw [← hline] at hone hle htake htake'
    refine ⟨⟨above, line, below, hsplit, hline.symm, hfault⟩, ?_, ?_, ?_⟩
    · obtain ⟨before, after, hcut, -, hbefore⟩ := exists_lines_eq_take source (e.line - 1) (by omega)
      exact ⟨before, after, hcut, hbefore⟩
    · intro before hbefore
      rw [sourceLines_eq, hbefore, htake]
      exact habove
    · intro other hother
      have hsplit' : sourceLines other =
          above ++ line :: linesFrom (1 + ((lines other).take e.line).length)
            ((lines other).drop e.line) := by
        rw [sourceLines_eq]
        nth_rewrite 1 [← List.take_append_drop e.line (lines other)]
        rw [linesFrom_append, hother, htake', List.append_assoc]
        rfl
      have herr := (layOut_eq_error_iff .standard _ e).mpr
        ⟨above, line, _, hsplit', habove, hfault, hline, htext⟩
      exact ⟨herr, (assemble_eq_error_iff .standard other e).mpr (.inl herr)⟩
  · intro l e hl he
    have hemit : emit .standard l.symbols (sourceLines source) = .error e := by
      rcases (assemble_eq_error_iff .standard source e).mp he with h | ⟨l', hl', h⟩
      · exact absurd (hl.symm.trans h) (by simp)
      · rwa [Except.ok.inj (hl.symm.trans hl')]
    obtain ⟨above, line, below, hsplit, habove, hrejects, hline, -⟩ :=
      (emit_eq_error_iff l.symbols _ e (exists_means_of_layOut hl)).mp hemit
    exact ⟨hrejects.isOperandFault, above, line, below, hsplit, hline.symm, habove, hrejects⟩
  · intro above line below fault hsplit hfault
    obtain ⟨e, he⟩ := exists_layOut_error below hfault
    rw [← hsplit] at he
    obtain ⟨_, _, _, -, -, hfault', -⟩ := (layOut_eq_error_iff _ _ e).mp he
    exact ⟨e, (assemble_eq_error_iff .standard source e).mpr (.inl he), hfault'.isOperandFault⟩

/-- a label bound twice, above an undefined one and on a line that is wrong in two ways -/
theorem assemble_first_error_label :
    assemble .standard "JMP x\n\na: HALT\nA: BOGUS\n".toList =
        .error ⟨.duplicateLabel "a".toList, 4, "A: BOGUS".toList⟩ ∧
      (∃ l, layOut .standard (sourceLines "JMP x\n\na: HALT\n".toList) = .ok l) ∧
      assemble .standard "JMP x\n\na: HALT\nA: BOGUS\nx: DB 1".toList =
        .error ⟨.duplicateLabel "a".toList, 4, "A: BOGUS".toList⟩ := by
  have he : layOut .standard (sourceLines "JMP x\n\na: HALT\nA: BOGUS\n".toList) =
      .error ⟨.duplicateLabel "a".toList, 4, "A: BOGUS".toList⟩ := by decide +kernel
  obtain ⟨-, hfirst, -⟩ := assemble_first_error "JMP x\n\na: HALT\nA: BOGUS\n".toList
  obtain ⟨-, -, habove, hsame⟩ := hfirst _ he
  exact ⟨(hsame _ rfl).2, habove _ (by decide), (hsame _ (by decide)).2⟩

end TinyCpu

import TinyCpu.Assembly.Basic
import TinyCpu.Proofs.Assembly.Statement
import TinyCpu.Proofs.Isa.Case
import TinyCpu.Proofs.Source

/-!
# Assembly ignores case

Two program texts that differ in the case of letters only are followed through both readings.

* `Line.lower`, `Statement.lower`   what is read of a text, in lower case;
* `sourceLines_lower`   reading goes through lower case;
* `operandByte_agree`, `Statement.read_agree`   alike texts have the same bytes, or alike faults;
* `assemble_ignores_case`   alike program texts have the same assembly, or alike errors.
-/

namespace TinyCpu
open Text

theorem eq_of_lower {α : Type} {f : Text → α} (hf : ∀ t, f (lower t) = f t) {s t : Text}
    (h : lower s = lower t) : f s = f t := by
  rw [← hf s, h, hf t]

theorem lower_eq_of_lower {f : Text → Text} (hf : ∀ t, f (lower t) = lower (f t)) {s t : Text}
    (h : lower s = lower t) : lower (f s) = lower (f t) := by
  rw [← hf s, h, hf t]

/-! ## Lines -/

namespace Line

protected def lower (line : Line) : Line where
  number := line.number
  raw := lower line.raw
  label := line.label.map lower
  body := lower line.body

theorem code_lower (raw : Text) : code (lower raw) = lower (code raw) :=
  takeWhile_lower _ (ignoresCase (· != ';') (by decide)) raw

theorem splitLabel_lower (t : Text) :
    splitLabel (lower t) = ((splitLabel t).1.map lower, lower (splitLabel t).2) := by
  unfold splitLabel
  rw [cut_lower (· == ':') (caseless_of_capitals ':' (by decide))]
  cases cut (· == ':') t with
  | none => rfl
  | some q =>
    show (if isName (lower q.1) = true then (some (lower q.1), lower q.2) else (none, lower t)) = _
    rw [isName_lower]
    by_cases hname : isName q.1 = true
    · simp only [if_pos hname, Option.map_some]
    · simp only [if_neg hname, Option.map_none]

theorem read?_lower (number : Nat) (raw : Text) :
    read? number (lower raw) = (read? number raw).map Line.lower := by
  rw [read?_eq, read?_eq, code_lower, trim_lower, isEmpty_lower, splitLabel_lower, trim_lower]
  by_cases he : (trim (code raw)).isEmpty = true
  · rw [if_pos he, if_pos he]
    rfl
  · rw [if_neg he, if_neg he]
    rfl

end Line

theorem sourceLines_lower (source : Text) :
    sourceLines (lower source) = (sourceLines source).map Line.lower := by
  unfold sourceLines
  rw [lines_lower, List.zipIdx_map, List.filterMap_map, List.map_filterMap]
  exact congrArg (List.filterMap · _) (funext fun q => Line.read?_lower q.2 q.1)

/-! ## Faults -/

protected def LineFault.lower : LineFault → LineFault
  | duplicateLabel t => duplicateLabel (lower t)
  | undefinedLabel t => undefinedLabel (lower t)
  | outOfRange t => outOfRange (lower t)
  | malformedNumber t => malformedNumber (lower t)
  | unknownMnemonic t => unknownMnemonic (lower t)
  | emptyDirective => emptyDirective
  | malformedDirective t => malformedDirective (lower t)

/-- faults of one kind, about texts that are equal up to case -/
def LineFault.Alike (f g : LineFault) : Prop := f.lower = g.lower

/-- alike faults of one line, which is written alike -/
structure LineError.Alike (e e' : LineError) : Prop where
  fault : e.fault.Alike e'.fault
  line : e.line = e'.line
  text : lower e.text = lower e'.text

theorem Line.pin_agree {α β : Type} {r : α → β → Prop} {line line' : Line}
    (hline : line.lower = line'.lower) {x : Except LineFault α} {y : Except LineFault β}
    (h : Agree LineFault.Alike r x y) : Agree LineError.Alike r (line.pin x) (line'.pin y) := by
  cases h with
  | ok hab => exact .ok hab
  | error hfault =>
    have hnumber : line.lower.number = line'.lower.number := by rw [hline]
    have hraw : lower line.raw = lower line'.raw := congrArg Line.raw hline
    exact .error ⟨hfault, hnumber, lower_eq_of_lower trim_lower hraw⟩

/-! ## Values -/

theorem Symbols.define_eq_of_lower (symbols : Symbols) (address : UInt32) {s t : Text}
    (h : lower s = lower t) : symbols.define s address = symbols.define t address := by
  unfold define
  rw [h]

theorem operandBody_lower (t : Text) : operandBody (lower t) = lower (operandBody t) := by
  unfold operandBody
  rw [trim_lower, dropLead_lower '#' (caseless_of_capitals _ (by decide)), trim_lower]

theorem numberByte_agree {s t : Text} (h : lower s = lower t) (v : Option Int) :
    Agree LineFault.Alike Eq (numberByte s v) (numberByte t v) := by
  unfold numberByte
  cases v with
  | none => exact .error (congrArg LineFault.malformedNumber h)
  | some v =>
    show Agree _ _ (if -128 ≤ v ∧ v ≤ 255 then _ else _) (if -128 ≤ v ∧ v ≤ 255 then _ else _)
    split
    · exact .ok rfl
    · exact .error (congrArg LineFault.outOfRange h)

theorem labelByte_agree {s t : Text} (h : lower s = lower t) (a : Option UInt32) :
    Agree LineFault.Alike Eq (labelByte s a) (labelByte t a) := by
  unfold labelByte
  cases a with
  | none => exact .error (congrArg LineFault.undefinedLabel h)
  | some a =>
    show Agree _ _ (if a ≤ 0xFF then _ else _) (if a ≤ 0xFF then _ else _)
    split
    · exact .ok rfl
    · exact .error (congrArg LineFault.outOfRange h)

/-- operands that are equal up to case have the same byte, or alike faults -/
theorem operandByte_agree (symbols : Symbols) {s t : Text} (h : lower s = lower t) :
    Agree LineFault.Alike Eq (operandByte symbols s) (operandByte symbols t) := by
  have hbody : lower (operandBody s) = lower (operandBody t) :=
    lower_eq_of_lower operandBody_lower h
  rw [operandByte_eq, operandByte_eq]
  generalize operandBody s = b at hbody
  generalize operandBody t = c at hbody
  have hempty : b.isEmpty = c.isEmpty := eq_of_lower isEmpty_lower hbody
  have haddress : symbols.address? b = symbols.address? c := by
    unfold Symbols.address?
    rw [hbody]
  rw [hempty, eq_of_lower startsHex_lower hbody, eq_of_lower hex?_lower hbody,
    eq_of_lower startsDecimal_lower hbody, eq_of_lower decimal?_lower hbody, haddress]
  split
  · exact .error (congrArg LineFault.malformedNumber hbody)
  · split
    · exact numberByte_agree hbody _
    · split
      · exact numberByte_agree hbody _
      · exact labelByte_agree hbody _

/-! ## Statements -/

namespace Statement

protected def lower : Statement → Statement
  | blank => blank
  | instruction m => instruction m.lower
  | data items => data (items.map lower)

/-- statements that are equal up to case -/
def Alike (s s' : Statement) : Prop := s.lower = s'.lower

theorem readData_agree {s t : Text} (h : lower s = lower t) :
    Agree LineFault.Alike Alike (readData s) (readData t) := by
  have hcomma : Caseless ',' := caseless_of_capitals _ (by decide)
  have hempty : s.isEmpty = t.isEmpty := eq_of_lower isEmpty_lower h
  have hitems : (fields ',' s).map lower = (fields ',' t).map lower := by
    rw [← fields_lower ',' hcomma, h, fields_lower ',' hcomma]
  have hany : (fields ',' s).any List.isEmpty = (fields ',' t).any List.isEmpty := by
    have hall : ∀ ts : List Text, (ts.map lower).any List.isEmpty = ts.any List.isEmpty := by
      intro ts
      rw [List.any_map]
      exact congrArg _ (funext isEmpty_lower)
    rw [← hall, hitems, hall]
  unfold readData
  rw [hempty, hany]
  split
  · exact .error rfl
  · split
    · exact .error (congrArg LineFault.malformedDirective h)
    · exact .ok (congrArg Statement.data hitems)

theorem read_agree (set : InstructionSet) {s t : Text} (h : lower s = lower t) :
    Agree LineFault.Alike Alike (read set s) (read set t) := by
  have hempty : s.isEmpty = t.isEmpty := eq_of_lower isEmpty_lower h
  have hresolve : (set.resolve? s).map Match.lower = (set.resolve? t).map Match.lower := by
    rw [← set.resolve?_lower, h, set.resolve?_lower]
  have hsplit := (splitMnemonic_lower s).symm.trans (h ▸ splitMnemonic_lower t)
  have hmnemonic : lower (splitMnemonic s).1 = lower (splitMnemonic t).1 := congrArg Prod.fst hsplit
  have hrest : lower (splitMnemonic s).2 = lower (splitMnemonic t).2 := congrArg Prod.snd hsplit
  unfold read
  rw [hempty]
  split
  · exact .ok rfl
  · cases hs : set.resolve? s with
    | some m =>
      cases ht : set.resolve? t with
      | some m' =>
        rw [hs, ht] at hresolve
        exact .ok (congrArg Statement.instruction (Option.some.inj hresolve))
      | none => simp [hs, ht] at hresolve
    | none =>
      cases ht : set.resolve? t with
      | some m' => simp [hs, ht] at hresolve
      | none =>
        have hdir : sameLetters (splitMnemonic s).1 directive
            = sameLetters (splitMnemonic t).1 directive := by
          unfold sameLetters
          rw [hmnemonic]
        have hupper : upper (splitMnemonic s).1 = upper (splitMnemonic t).1 :=
          eq_of_lower upper_lower hmnemonic
        show Agree _ _
          (if sameLetters (splitMnemonic s).1 directive then readData (splitMnemonic s).2
            else .error (.unknownMnemonic (upper (splitMnemonic s).1)))
          (if sameLetters (splitMnemonic t).1 directive then readData (splitMnemonic t).2
            else .error (.unknownMnemonic (upper (splitMnemonic t).1)))
        rw [hdir, hupper]
        split
        · exact readData_agree hrest
        · exact .error rfl

end Statement

theorem Match.operandBytes_agree (symbols : Symbols) {m m' : Match} (h : m.lower = m'.lower) :
    Agree LineFault.Alike Eq (m.operandBytes symbols) (m'.operandBytes symbols) := by
  obtain ⟨form, operand⟩ := m
  obtain ⟨form', operand'⟩ := m'
  obtain rfl : form = form' := congrArg Match.form h
  have hoperand : operand.map lower = operand'.map lower := congrArg Match.operand h
  unfold operandBytes
  cases form.encoding with
  | implied => exact .ok rfl
  | byte =>
    cases operand with
    | none =>
      cases operand' with
      | none => exact .error rfl
      | some t' => simp at hoperand
    | some t =>
      cases operand' with
      | none => simp at hoperand
      | some t' =>
        exact (operandByte_agree symbols (Option.some.inj hoperand)).map fun b b' hb => by rw [hb]

namespace Statement

theorem Alike.size_eq {s s' : Statement} (h : s.Alike s') : s.size = s'.size := by
  have hsize : ∀ u : Statement, u.lower.size = u.size := by
    intro u
    cases u with
    | blank => rfl
    | instruction m => rfl
    | data items =>
      show UInt32.ofNat (items.map lower).length = UInt32.ofNat items.length
      rw [List.length_map]
  rw [← hsize s, h, hsize s']

theorem Alike.bytes_agree {s s' : Statement} (h : s.Alike s') (symbols : Symbols) :
    Agree LineFault.Alike Eq (s.bytes symbols) (s'.bytes symbols) := by
  cases s with
  | blank =>
    cases s' with
    | blank => exact .ok rfl
    | instruction m' => cases h
    | data items' => cases h
  | instruction m =>
    cases s' with
    | blank => cases h
    | instruction m' =>
      have hm : m.lower = m'.lower := Statement.instruction.inj h
      have hopcode : m.form.opcode = m'.form.opcode := congrArg (fun k => k.form.opcode) hm
      exact (Match.operandBytes_agree symbols hm).map fun bs bs' hbs => by rw [hopcode, hbs]
    | data items' => cases h
  | data items =>
    cases s' with
    | blank => cases h
    | instruction m' => cases h
    | data items' =>
      have hitems : items.map lower = items'.map lower := Statement.data.inj h
      have hall : List.Forall₂ (fun t t' => lower t = lower t') items items' := by
        rw [← List.forall₂_eq_eq_eq, List.forall₂_map_left_iff, List.forall₂_map_right_iff] at hitems
        exact hitems
      have hbytes := Agree.mapM hall fun t t' => operandByte_agree symbols (s := t) (t := t')
      rw [List.forall₂_eq_eq_eq] at hbytes
      exact hbytes

end Statement

/-! ## Runs -/

theorem forall₂_sourceLines {s t : Text} (h : lower s = lower t) :
    List.Forall₂ (fun line line' : Line => line.lower = line'.lower) (sourceLines s)
      (sourceLines t) := by
  have hlines : (sourceLines s).map Line.lower = (sourceLines t).map Line.lower := by
    rw [← sourceLines_lower, h, sourceLines_lower]
  rw [← List.forall₂_eq_eq_eq, List.forall₂_map_left_iff, List.forall₂_map_right_iff] at hlines
  exact hlines

theorem Layout.addLine_agree (set : InstructionSet) (l : Layout) {line line' : Line}
    (h : line.lower = line'.lower) :
    Agree LineError.Alike Eq (addLine set l line) (addLine set l line') := by
  have hbody : lower line.body = lower line'.body := congrArg Line.body h
  have hlabel : line.label.map lower = line'.label.map lower := congrArg Line.label h
  have hbind : l.bind line.label = l.bind line'.label := by
    cases hl : line.label with
    | none =>
      cases hl' : line'.label with
      | none => rfl
      | some name' => simp [hl, hl'] at hlabel
    | some name =>
      cases hl' : line'.label with
      | none => simp [hl, hl'] at hlabel
      | some name' =>
        rw [hl, hl'] at hlabel
        show (l.symbols.define name l.size).map _ = (l.symbols.define name' l.size).map _
        rw [l.symbols.define_eq_of_lower l.size (Option.some.inj hlabel)]
  unfold addLine
  rw [hbind]
  apply Line.pin_agree h
  cases l.bind line'.label with
  | error fault => exact .error rfl
  | ok l' =>
    exact (Statement.read_agree set hbody).map fun s s' hs => by rw [hs.size_eq]

theorem Emission.addLine_agree (set : InstructionSet) (symbols : Symbols) (e : Emission)
    {line line' : Line} (h : line.lower = line'.lower) :
    Agree LineError.Alike Eq (addLine set symbols e line) (addLine set symbols e line') := by
  have hbody : lower line.body = lower line'.body := congrArg Line.body h
  unfold addLine
  apply Line.pin_agree h
  refine ((Statement.read_agree set hbody).bind fun s s' hs => hs.bytes_agree symbols).map ?_
  rintro bs _ rfl
  rfl

theorem assemble_agree (set : InstructionSet) {s t : Text} (h : lower s = lower t) :
    Agree LineError.Alike Eq (assemble set s) (assemble set t) := by
  have hlines := forall₂_sourceLines h
  have hlayout : Agree LineError.Alike Eq (layOut set (sourceLines s)) (layOut set (sourceLines t)) :=
    Agree.foldlM hlines (fun l line line' => Layout.addLine_agree set l) {}
  refine hlayout.bind ?_
  rintro l _ rfl
  have hemit : Agree LineError.Alike Eq (emit set l.symbols (sourceLines s))
      (emit set l.symbols (sourceLines t)) :=
    (Agree.foldlM hlines (fun e line line' => Emission.addLine_agree set l.symbols e) {}).map
      fun e e' he => congrArg Emission.image he
  exact hemit.map fun image image' himage => by rw [himage]

/-- **Assembly ignores case.**  Two program texts of one length that differ in the case of ASCII
letters only have the same symbols and the same image, or both have an error: of the same kind, at
the same line, and about texts that differ in the case of letters only. -/
theorem assemble_ignores_case (set : InstructionSet) (s t : Text) (h : lower s = lower t) :
    (∃ asm, assemble set s = .ok asm ∧ assemble set t = .ok asm) ∨
    ∃ e e', assemble set s = .error e ∧ assemble set t = .error e' ∧
      e.fault.lower = e'.fault.lower ∧ e.line = e'.line ∧ lower e.text = lower e'.text := by
  have hagree := assemble_agree set h
  cases hs : assemble set s with
  | ok asm =>
    rw [hs] at hagree
    cases ht : assemble set t with
    | ok asm' =>
      rw [ht] at hagree
      cases hagree with
      | ok heq => exact .inl ⟨asm, rfl, by rw [heq]⟩
    | error e' =>
      rw [ht] at hagree
      cases hagree
  | error e =>
    rw [hs] at hagree
    cases ht : assemble set t with
    | ok asm' =>
      rw [ht] at hagree
      cases hagree
    | error e' =>
      rw [ht] at hagree
      cases hagree with
      | error he => exact .inr ⟨e, e', rfl, rfl, he.fault, he.line, he.text⟩

/-- a label, a register, a hexadecimal literal, a comment and the data directive in mixed case -/
theorem assemble_ignores_case_mixed :
    lower "Loop: MOV A, 0xfF ; Go\nDb Loop, -1\njmp LOOP".toList
        = lower "lOOP: mov a, 0XFf ; gO\ndB lOOP, -1\nJMP loop".toList ∧
      ∃ asm, assemble .standard "Loop: MOV A, 0xfF ; Go\nDb Loop, -1\njmp LOOP".toList = .ok asm ∧
        assemble .standard "lOOP: mov a, 0XFf ; gO\ndB lOOP, -1\nJMP loop".toList = .ok asm := by
  have hcase : lower "Loop: MOV A, 0xfF ; Go\nDb Loop, -1\njmp LOOP".toList
      = lower "lOOP: mov a, 0XFf ; gO\ndB lOOP, -1\nJMP loop".toList := by decide
  have hok : (assemble .standard "Loop: MOV A, 0xfF ; Go\nDb Loop, -1\njmp LOOP".toList).isOk
      = true := by decide +kernel
  rcases assemble_ignores_case .standard _ _ hcase with hasm | ⟨e, _, he, _⟩
  · exact ⟨hcase, hasm⟩
  · rw [he] at hok
    exact absurd hok (by simp [Except.isOk, Except.toBool])

end TinyCpu

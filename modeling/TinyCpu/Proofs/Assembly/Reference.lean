import TinyCpu.Proofs.Assembly.Emission
import TinyCpu.Proofs.Isa.Grammar

/-!
# References to labels

The names of labels, the tokens of operands and the numerals are told apart by different readers.
Here they fit together: whatever a label is called, it can be used wherever a value or an address
can stand.

* `isName_of_bound`       the names in a symbol table are names;
* `isToken_of_isName`, `isLabel_of_isName`   a name is a token, and it is looked up as a label;
* `Reference`             the lines that refer to one label;
* `Reference.read_line`   each of them is read as it looks, even if the label is called like a
                          register, a mnemonic or the data directive;
* `emit_reference`        each of them stores the address of the label, or says that it is too
                          large.
-/

namespace TinyCpu
open Text

/-! ## Names of labels -/

theorem Line.isName_of_label {number : Nat} {raw name : Text} {line : Line}
    (h : read? number raw = some line) (hl : line.label = some name) : isName name = true := by
  have hsplit : ∀ t : Text, (splitLabel t).1 = some name → isName name = true := by
    intro t ht
    unfold splitLabel at ht
    split at ht
    · next q rest hcut =>
      split at ht
      · next hq => exact Option.some.inj ht ▸ hq
      · exact absurd ht (by simp)
    · exact absurd ht (by simp)
  rw [read?_eq] at h
  split at h
  · exact absurd h (by simp)
  · rw [← Option.some.inj h] at hl
    exact hsplit _ hl

/-- the names in the symbol table of a text are names, in lower case -/
theorem isName_of_bound {set : InstructionSet} {source : Text} {l : Layout}
    (hl : layOut set (sourceLines source) = .ok l) {name : Text} {a : UInt32}
    (ha : l.symbols.get? name = some a) : isName name = true ∧ lower name = name := by
  obtain ⟨p, hp, -, rfl⟩ := (layOut_eq_ok_iff set _ l).mp hl
  have hmem : name ∈ p.labels := by
    rw [← p.contains_symbols_iff, SortedMap.contains, ha]
    rfl
  obtain ⟨q, hq, hname⟩ := List.mem_filterMap.mp hmem
  obtain ⟨label, hlabel, rfl⟩ := Option.map_eq_some_iff.mp hname
  have hline : q.1 ∈ sourceLines source := hp.lines ▸ List.mem_map_of_mem hq
  obtain ⟨r, -, hr⟩ := List.mem_filterMap.mp hline
  rw [isName_lower, lower_lower]
  exact ⟨Line.isName_of_label hr hlabel, rfl⟩

/-! ## Names as operands -/

theorem isName_cons {c : Char} {t : Text} (h : isName (c :: t) = true) :
    (c.isAlpha || c == '_') = true ∧ ∀ d ∈ c :: t, isNameChar d = true := by
  obtain ⟨hc, ht⟩ := Bool.and_eq_true_iff.mp h
  refine ⟨hc, List.forall_mem_cons.mpr ⟨?_, List.all_eq_true.mp ht⟩⟩
  unfold isNameChar Char.isAlphanum
  rw [Bool.or_right_comm, hc, Bool.true_or]

section
variable {n : Text} (h : isName n = true)
include h

theorem isToken_marked_of_isName : Operand.isToken ('#' :: n) = true := by
  obtain _ | ⟨c, t⟩ := n
  · exact absurd h (by decide)
  · have hall : (c :: t).all Operand.isTokenChar = true := by
      rw [List.all_eq_true]
      intro d hd
      unfold Operand.isTokenChar
      rw [(isName_cons h).2 d hd, Bool.true_or, Bool.true_or]
    exact hall

theorem head?_ne_of_isName : n.head? ≠ some '#' := by
  obtain _ | ⟨c, t⟩ := n
  · exact absurd h (by decide)
  · intro hhead
    obtain rfl := Option.some.inj hhead
    exact absurd (isName_cons h).1 (by decide)

theorem isToken_of_isName : Operand.isToken n = true := by
  have hmarked := isToken_marked_of_isName h
  unfold Operand.isToken at hmarked ⊢
  rwa [dropLead_of_head? '#' n (head?_ne_of_isName h)]

theorem isLabel_of_isName : IsLabel n := by
  obtain _ | ⟨c, t⟩ := n
  · exact absurd h (by decide)
  have hc := (isName_cons h).1
  have hnone : ("+-0123456789".toList.all fun d => !(d.isAlpha || d == '_')) = true := by decide
  have hhead : ∀ d rest, c :: t = d :: rest → d ∉ "+-0123456789".toList := by
    intro d rest heq hmem
    have hfalse := List.all_eq_true.mp hnone d hmem
    rw [← (List.cons.inj heq).1, hc] at hfalse
    exact absurd hfalse (by decide)
  refine ⟨List.cons_ne_nil c t, ?_⟩
  rintro (⟨x, rest, -, heq⟩ | ⟨sign, d, rest, hsign, hd, heq⟩)
  · exact hhead '0' _ heq (by decide)
  · simp only [List.mem_cons, List.not_mem_nil, or_false] at hsign
    obtain rfl | rfl | rfl := hsign
    · exact hhead d _ heq (List.mem_cons_of_mem _ (List.mem_cons_of_mem _ hd))
    · exact hhead '+' _ heq (by decide)
    · exact hhead '-' _ heq (by decide)

theorem operandBody_of_isName : operandBody n = n :=
  operandBody_of_trimmed n (Operand.trimmed_of_isToken n (isToken_of_isName h))
    (head?_ne_of_isName h)

theorem operandBody_marked_name : operandBody ('#' :: n) = n :=
  (operandBody_marked [] n blanks_nil).trans
    (trim_of_trimmed n (Operand.trimmed_of_isToken n (isToken_of_isName h)))

/-- the immediate marker is never part of a keyword -/
theorem valueToken_marked : Operand.ValueToken ('#' :: n) := by
  refine ⟨isToken_marked_of_isName h, ?_⟩
  unfold Register.ofKeyword?
  rw [List.find?_eq_none]
  intro r _
  cases r <;> simp [lower, Register.keyword]

theorem ofText_bracketed_name : Operand.ofText ('[' :: n ++ [']']) = .memory n := by
  have hbracketed := Operand.ofText_bracketed [] n [] blanks_nil (isToken_of_isName h) blanks_nil
  rwa [List.nil_append, List.append_nil] at hbracketed

end

/-! ## Lines with a reference -/

/-- the places where a label is referred to -/
inductive Reference
  | jump | jumpZero | moveA | moveB | moveSp | load | store | data | markedData
  deriving DecidableEq, Repr

namespace Reference

def before : Reference → Text
  | jump => "JMP ".toList
  | jumpZero => "JZ #".toList
  | moveA => "MOV A, #".toList
  | moveB => "MOV B, #".toList
  | moveSp => "MOV SP, #".toList
  | load => "MOV A, [".toList
  | store => "MOV [".toList
  | data => "DB ".toList
  | markedData => "DB #".toList

def after : Reference → Text
  | load => "]".toList
  | store => "], A".toList
  | _ => []

def line (ref : Reference) (n : Text) : Text := ref.before ++ n ++ ref.after

/-- the opcode in front of the operand byte; data have none -/
def opcode? : Reference → Option UInt8
  | jump => some 0x04
  | jumpZero => some 0x1A
  | moveA => some 0x06
  | moveB => some 0x30
  | moveSp => some 0x0D
  | load => some 0x16
  | store => some 0x20
  | data => none
  | markedData => none

def mnemonic : Reference → Text
  | jump => "JMP".toList
  | jumpZero => "JZ".toList
  | moveA | moveB | moveSp | load | store => "MOV".toList
  | data | markedData => "DB".toList

def slots : Reference → List Slot
  | jump | jumpZero | data | markedData => [.value]
  | moveA => [.register .a, .value]
  | moveB => [.register .b, .value]
  | moveSp => [.register .sp, .value]
  | load => [.register .a, .memory]
  | store => [.memory, .register .a]

/-- the operand that stands for the label, without brackets -/
def token (n : Text) : Reference → Text
  | jump | load | store | data => n
  | jumpZero | moveA | moveB | moveSp | markedData => '#' :: n

def statement (ref : Reference) (n : Text) : Statement :=
  match ref.opcode? with
  | some opcode => .instruction ⟨⟨ref.mnemonic, ref.slots, opcode, .byte⟩, some (ref.token n)⟩
  | none => .data [ref.token n]

def operands (ref : Reference) (n : Text) : Text :=
  [',', ' '].intercalate (ref.slots.map (Slot.filled (ref.token n)))

theorem line_eq (ref : Reference) (n : Text) :
    ref.line n = ref.mnemonic ++ ' ' :: ref.operands n := by
  have hone : ∀ t : Text, [',', ' '].intercalate [t] = t := fun t => List.intercalate_singleton
  have htwo : ∀ t u : Text, [',', ' '].intercalate [t, u] = t ++ [',', ' '] ++ u := by
    intro t u
    rw [List.intercalate_cons_cons, List.intercalate_singleton]
  unfold line operands
  cases ref with
  | jump | data =>
    show _ = _ ++ ' ' :: [',', ' '].intercalate [n]
    rw [hone]
    exact List.append_nil _
  | jumpZero | markedData =>
    show _ = _ ++ ' ' :: [',', ' '].intercalate ['#' :: n]
    rw [hone]
    exact List.append_nil _
  | moveA | moveB | moveSp =>
    show _ = _ ++ ' ' :: [',', ' '].intercalate [_, '#' :: n]
    rw [htwo]
    exact List.append_nil _
  | load =>
    show _ = _ ++ ' ' :: [',', ' '].intercalate ["A".toList, '[' :: n ++ [']']]
    rw [htwo]
    exact List.append_assoc _ _ _
  | store =>
    show _ = _ ++ ' ' :: [',', ' '].intercalate ['[' :: n ++ [']'], "A".toList]
    rw [htwo, List.append_assoc, List.append_assoc, List.append_assoc]
    rfl

theorem isToken_token (ref : Reference) {n : Text} (h : isName n = true) :
    Operand.isToken (ref.token n) = true := by
  cases ref with
  | jump | load | store | data => exact isToken_of_isName h
  | jumpZero | moveA | moveB | moveSp | markedData => exact isToken_marked_of_isName h

theorem operandBody_token (ref : Reference) {n : Text} (h : isName n = true) :
    operandBody (ref.token n) = n := by
  cases ref with
  | jump | load | store | data => exact operandBody_of_isName h
  | jumpZero | moveA | moveB | moveSp | markedData => exact operandBody_marked_name h

theorem mem_line (ref : Reference) (n : Text) (c : Char) (h : c ∈ ref.line n) :
    c ∈ n ∨ c ∈ ref.before ++ ref.after := by
  unfold line at h
  simp only [List.mem_append] at h ⊢
  tauto

theorem line_ne_nil (ref : Reference) (n : Text) : ref.line n ≠ [] := by
  cases ref <;> exact List.cons_ne_nil _ _

theorem slots_ne_nil (ref : Reference) : ref.slots ≠ [] := by
  cases ref <;> exact List.cons_ne_nil _ _

theorem blank_mnemonic (ref : Reference) : ∀ c ∈ ref.mnemonic, isBlank c = false := by
  have hall : (ref.mnemonic.all fun c => !isBlank c) = true := by cases ref <;> decide
  intro c hc
  simpa using List.all_eq_true.mp hall c hc

section
variable (ref : Reference) {n : Text} (h : isName n = true)
include h

theorem operands_trimmed : ref.operands n ≠ [] ∧ Trimmed (ref.operands n) := by
  apply intercalate_trimmed
  · exact fun hnil => ref.slots_ne_nil (List.map_eq_nil_iff.mp hnil)
  · exact Slot.plain_map_filled _ (ref.isToken_token h) _

theorem trimmed_line : Trimmed (ref.line n) := by
  obtain ⟨hne, htrim⟩ := ref.operands_trimmed h
  rw [line_eq]
  exact trimmed_mnemonic_append _ _ (by cases ref <;> decide) ref.blank_mnemonic hne htrim

theorem fields_operands :
    fields ',' (ref.operands n) = ref.slots.map (Slot.filled (ref.token n)) := by
  have hplain := Slot.plain_map_filled _ (ref.isToken_token h) ref.slots
  obtain ⟨s, ss, hslots⟩ := List.exists_cons_of_ne_nil ref.slots_ne_nil
  unfold operands
  rw [hslots, List.map_cons] at hplain ⊢
  exact fields_intercalate_blank _ _ (fun u hu => (hplain u hu).comma)
    fun u hu => (hplain u hu).trimmed

theorem splitMnemonic_line : splitMnemonic (ref.line n) = (ref.mnemonic, ref.operands n) := by
  unfold splitMnemonic
  rw [trim_of_trimmed _ (ref.trimmed_line h), line_eq,
    cut_append isBlank _ ' ' _ ref.blank_mnemonic (by decide)]
  show (ref.mnemonic, trim (ref.operands n)) = _
  rw [trim_of_trimmed _ (ref.operands_trimmed h).2]

theorem splitInstruction_line :
    splitInstruction (ref.line n) =
      (ref.mnemonic, ref.slots.map (Slot.filled (ref.token n))) := by
  have htrim := ref.trimmed_line h
  rw [line_eq] at htrim ⊢
  rw [splitInstruction_cut ref.mnemonic ' ' _ ref.blank_mnemonic (by decide) htrim,
    ref.fields_operands h]

theorem resolve?_of_operands (os : List Operand)
    (hos : (ref.slots.map (Slot.filled (ref.token n))).map Operand.ofText = os) :
    InstructionSet.standard.resolve? (ref.line n) =
      (Form.mostSpecific? (InstructionSet.standard.candidates ref.mnemonic os)).map
        fun f => ⟨f, f.valueText? os⟩ := by
  subst hos
  rw [InstructionSet.resolve?_eq, Operand.ofLine, ref.splitInstruction_line h]

theorem resolve?_line (opcode : UInt8) (hop : ref.opcode? = some opcode) :
    InstructionSet.standard.resolve? (ref.line n) =
      some ⟨⟨ref.mnemonic, ref.slots, opcode, .byte⟩, some (ref.token n)⟩ := by
  -- a keyword is a value after a jump, since no jump takes a register
  by_cases hjump : ref = .jump
  · subst hjump
    obtain rfl := Option.some.inj hop
    obtain ⟨r, hr⟩ | hv := Operand.ofText_of_isToken n (isToken_of_isName h)
    · rw [resolve?_of_operands .jump h [.register r n] (congrArg (fun o => [o]) hr)]
      rfl
    · rw [resolve?_of_operands .jump h [.value n] (congrArg (fun o => [o]) hv)]
      rfl
  -- everywhere else the marker or the brackets keep it from being one
  have hos : (ref.slots.map (Slot.filled (ref.token n))).map Operand.ofText =
      ref.slots.map (Slot.operand (ref.token n)) := by
    rw [List.map_map]
    apply List.map_congr_left
    intro s hs
    cases ref with
    | jump => exact absurd rfl hjump
    | jumpZero | moveA | moveB | moveSp | markedData =>
      exact Operand.ofText_filled _ (valueToken_marked h) s
    | load | store =>
      have hslot : s = .register .a ∨ s = .memory := by simpa [slots, or_comm] using hs
      obtain rfl | rfl := hslot
      · exact Operand.ofText_keyword .a
      · exact ofText_bracketed_name h
    | data => exact absurd hop (by simp [opcode?])
  rw [ref.resolve?_of_operands h _ hos]
  cases ref with
  | jump => exact absurd rfl hjump
  | data | markedData => exact absurd hop (by simp [opcode?])
  | jumpZero | moveA | moveB | moveSp | load | store =>
    obtain rfl := Option.some.inj hop
    rfl

theorem resolve?_data (hop : ref.opcode? = none) :
    InstructionSet.standard.resolve? (ref.line n) = none := by
  unfold InstructionSet.resolve?
  rw [ref.splitInstruction_line h]
  cases ref with
  | data => rfl
  | markedData => rfl
  | _ => exact absurd hop (by decide)

theorem read_line : Statement.read .standard (ref.line n) = .ok (ref.statement n) := by
  unfold statement
  cases hop : ref.opcode? with
  | some opcode =>
    apply Statement.Means.read_eq
    exact .instruction _ _ (ref.line_ne_nil n)
      (ref.resolve?_line h opcode hop)
  | none =>
    have hslots : ref.slots = [.value] := by
      cases ref with
      | data | markedData => rfl
      | _ => exact absurd hop (by decide)
    have hfields : fields ',' (ref.operands n) = [ref.token n] := by
      rw [ref.fields_operands h, hslots]
      rfl
    have hdirective : lower ref.mnemonic = lower Statement.directive := by
      cases ref with
      | data | markedData => rfl
      | _ => exact absurd hop (by decide)
    rw [← hfields]
    apply Statement.Means.read_eq
    apply Statement.Means.data _ _ _ (ref.resolve?_data h hop) (ref.splitMnemonic_line h) hdirective
      (ref.operands_trimmed h).1
    intro item hitem
    rw [hfields, List.mem_singleton] at hitem
    rw [hitem]
    exact Operand.ne_nil_of_isToken _ (ref.isToken_token h)

theorem bytes_statement (symbols : Symbols) :
    (ref.statement n).bytes symbols =
      (labelByte n (symbols.get? (lower n))).map fun b => ref.opcode?.toList ++ [b] := by
  have hbody := ref.operandBody_token h
  have hbyte : operandByte symbols (ref.token n) = labelByte n (symbols.get? (lower n)) := by
    have hlabel := operandByte_of_label symbols (ref.token n) (hbody.symm ▸ isLabel_of_isName h)
    rwa [hbody] at hlabel
  rw [← hbyte]
  unfold statement
  cases ref.opcode? with
  | some opcode =>
    show ((operandByte symbols (ref.token n)).map _).map _ = _
    cases operandByte symbols (ref.token n) <;> rfl
  | none =>
    show [ref.token n].mapM (operandByte symbols) = _
    rw [mapM_cons_eq]
    cases operandByte symbols (ref.token n) <;> rfl

theorem bare_line : Line.Bare (ref.line n) := by
  have hmarks : ∀ d ∈ "\n;:".toList, d ∉ ref.line n := by
    have hfixed : ((ref.before ++ ref.after).all fun c => !"\n;:".toList.contains c) = true := by
      cases ref <;> decide
    have hspecial : ("\n;:".toList.all fun d => isBlank d || marks.contains d) = true := by decide
    intro d hd hmem
    obtain hn | hline := ref.mem_line n d hmem
    · obtain ⟨hblank, hmark⟩ := Operand.plain_of_isToken n (isToken_of_isName h) d hn
      have hd := List.all_eq_true.mp hspecial d hd
      simp [hblank, hmark] at hd
    · have hnot := List.all_eq_true.mp hfixed d hline
      rw [List.contains_iff_mem.mpr hd] at hnot
      exact absurd hnot (by decide)
  exact ⟨ref.line_ne_nil n, ref.trimmed_line h, hmarks _ (by decide),
    hmarks _ (by decide), hmarks _ (by decide)⟩

end

end Reference

theorem labelByte_some (body : Text) (a : UInt32) :
    labelByte body (some a) =
      if a.toNat ≤ 255 then .ok (UInt8.ofNat a.toNat) else .error (.outOfRange body) := by
  have hle : a ≤ 0xFF ↔ a.toNat ≤ 255 := UInt32.le_iff_toNat_le
  unfold labelByte
  by_cases ha : a.toNat ≤ 255
  · rw [if_pos ha]
    exact if_pos (hle.mpr ha)
  · rw [if_neg ha]
    exact if_neg fun h => ha (hle.mp h)

theorem Reference.encode_line (ref : Reference) {n : Text} (h : isName n = true) (number : Nat)
    (symbols : Symbols) (a : UInt32) (ha : symbols.get? (lower n) = some a) :
    Line.encode .standard symbols ⟨number, ref.line n, none, ref.line n⟩ =
      if a.toNat ≤ 255 then .ok (ref.opcode?.toList ++ [UInt8.ofNat a.toNat])
      else .error ⟨.outOfRange n, number, ref.line n⟩ := by
  have htrim := trim_of_trimmed _ (ref.trimmed_line h)
  unfold Line.encode
  rw [ref.read_line h]
  show Line.pin _ ((ref.statement n).bytes symbols) = _
  rw [ref.bytes_statement h, ha, labelByte_some]
  split
  · rfl
  · show Except.error (⟨_, number, trim (ref.line n)⟩ : LineError) = _
    rw [htrim]

/-- **Every label can be referred to everywhere.**  Let a text be laid out, and take any label of
its table, in any case.  Whatever the label is called, a line that refers to it stores the opcode
and the address of the label if that is a byte; otherwise the line fails, and the fault shows the
label without the marker and without the brackets. -/
theorem emit_reference (source : Text) (l : Layout)
    (hl : layOut .standard (sourceLines source) = .ok l) (name : Text) (a : UInt32)
    (ha : l.symbols.get? name = some a) (n : Text) (hn : lower n = lower name) (ref : Reference) :
    (∀ number, ∃ line, Line.read? number (ref.line n) = some line ∧
      ∀ e, Emission.addLine .standard l.symbols e line =
        if a.toNat ≤ 255 then .ok ((ref.opcode?.toList ++ [UInt8.ofNat a.toNat]).foldl .push e)
        else .error ⟨.outOfRange n, number, ref.line n⟩) ∧
    emit .standard l.symbols (sourceLines (ref.line n)) =
      if a.toNat ≤ 255 then .ok (Image.ofBytes (ref.opcode?.toList ++ [UInt8.ofNat a.toNat]))
      else .error ⟨.outOfRange n, 1, ref.line n⟩ := by
  obtain ⟨hname, hlower⟩ := isName_of_bound hl ha
  rw [← isName_lower, ← hn, isName_lower] at hname
  have hget : l.symbols.get? (lower n) = some a := by rw [hn, hlower, ha]
  have hbare := ref.bare_line hname
  have hencode := fun number => ref.encode_line hname number l.symbols a hget
  refine ⟨fun number => ⟨_, Line.read?_of_bare number _ hbare, fun e => ?_⟩, ?_⟩
  · rw [Emission.addLine_eq, hencode]
    split <;> rfl
  · have hlines : sourceLines (ref.line n) = [⟨1, ref.line n, none, ref.line n⟩] := by
      rw [sourceLines_eq, lines_of_not_mem _ hbare.ne_nil hbare.newline, linesFrom_cons,
        Line.read?_of_bare 1 _ hbare]
      rfl
    rw [hlines, emit_eq, mapM_cons_eq, hencode]
    split
    · show Except.ok (Image.ofBytes (_ ++ [])) = _
      rw [List.append_nil]
    · rfl

/-- a directive of 256 bytes, and a label behind it that is called like the directive -/
def farLabel : Text :=
  "DB 0".toList ++ (List.replicate 255 ",0".toList).flatten ++ "\nDb: HALT".toList

/-- a label called like a register, where a register could stand as well, and a label that is too
far away -/
theorem emit_reference_register :
    (∃ l, layOut .standard (sourceLines "NOP\nSp: HALT".toList) = .ok l ∧
      emit .standard l.symbols (sourceLines "JMP SP".toList) = .ok (Image.ofBytes [0x04, 1]) ∧
      emit .standard l.symbols (sourceLines "MOV SP, #sP".toList) =
        .ok (Image.ofBytes [0x0D, 1])) ∧
    ∃ l, layOut .standard (sourceLines farLabel) = .ok l ∧
      emit .standard l.symbols (sourceLines "DB #dB".toList) =
        .error ⟨.outOfRange "dB".toList, 1, "DB #dB".toList⟩ := by
  have hbound : ∀ source name a,
      ((layOut .standard (sourceLines source)).toOption.bind fun l => l.symbols.get? name) =
        some a →
        ∃ l, layOut .standard (sourceLines source) = .ok l ∧ l.symbols.get? name = some a := by
    intro source name a h
    cases hl : layOut .standard (sourceLines source) with
    | error e =>
      rw [hl] at h
      exact absurd h (by simp [Except.toOption])
    | ok l =>
      rw [hl] at h
      exact ⟨l, rfl, h⟩
  constructor
  · obtain ⟨l, hl, ha⟩ := hbound "NOP\nSp: HALT".toList "sp".toList 1 (by decide +kernel)
    have href := emit_reference _ l hl "sp".toList 1 ha
    exact ⟨l, hl, (href "SP".toList (by decide) .jump).2.trans (if_pos (by decide)),
      (href "sP".toList (by decide) .moveSp).2.trans (if_pos (by decide))⟩
  · obtain ⟨l, hl, ha⟩ := hbound farLabel "db".toList 256 (by decide +kernel)
    have href := emit_reference _ l hl "db".toList 256 ha
    exact ⟨l, hl, (href "dB".toList (by decide) .markedData).2.trans (if_neg (by decide))⟩

end TinyCpu

import TinyCpu.Proofs.Assembly.Correct
import TinyCpu.Proofs.Isa.Specificity
import TinyCpu.Proofs.Text.Lines

/-!
# The location counter

Both readings of a program count its bytes in 32 bits.  With the CPU's instructions a body never
takes more bytes than it has characters, so the counter stays behind the text that has been read,
and it is the exact number of bytes as long as the text itself fits into 32 bits.

* `Statement.Means.width_le_length`   a statement takes no more bytes than its body has characters;
* `Line.width`, `linesWidth`          the exact number of bytes of lines;
* `counter_foldlM`                    a run adds up what its steps add, modulo `2 ^ 32`;
* `linesWidth_le`                     lines take no more bytes than the text they are read from;
* `counter_never_wraps`               both counters are exact, at every line and at every byte.
-/

namespace TinyCpu
open Text

/-! ## Statements against their text -/

theorem length_splitInstruction_le (t : Text) : (splitInstruction t).1.length ≤ t.length := by
  have htrim := (trim_sublist t).length_le
  show (splitMnemonic t).1.length ≤ t.length
  unfold splitMnemonic
  split
  · next mnemonic rest hcut =>
    obtain ⟨_, c, _, heq⟩ := (cut_eq_some_iff _ _ _ _).mp hcut
    have hlen := congrArg List.length heq
    rw [List.length_append] at hlen
    show mnemonic.length ≤ t.length
    omega
  · exact htrim

theorem Form.Matches.length_mnemonic_le {f : Form} {t : Text} (h : f.Matches t) :
    f.mnemonic.length ≤ t.length := by
  have hlower := congrArg List.length h.1
  rw [length_lower, length_lower] at hlower
  rw [hlower]
  exact length_splitInstruction_le t

theorem InstructionSet.two_le_length_mnemonic (f : Form) (h : f ∈ table)
    (hbyte : f.encoding = .byte) : 2 ≤ f.mnemonic.length := by
  have hall : (table.all fun f => f.encoding != .byte || decide (2 ≤ f.mnemonic.length)) = true := by
    decide
  have hf := List.all_eq_true.mp hall f h
  rw [hbyte] at hf
  simpa using hf

/-- with the CPU's instructions, a statement takes no more bytes than its body has characters -/
theorem Statement.Means.width_le_length {body : Text} {s : Statement}
    (h : Statement.Means .standard body s) : s.width ≤ body.length := by
  cases h with
  | blank => exact Nat.le_refl _
  | instruction _ m hne hm =>
    obtain ⟨hmem, hmatch, -⟩ := InstructionSet.standard.resolve?_specific body m hm
    have hlen := hmatch.length_mnemonic_le
    have hpos := List.length_pos_iff.mpr hne
    cases he : m.form.encoding with
    | implied =>
      simp only [width, he]
      omega
    | byte =>
      have htwo := InstructionSet.two_le_length_mnemonic m.form hmem he
      simp only [width, he]
      omega
  | data _ mnemonic list _ hsplit _ hlist _ => exact length_items_le hsplit hlist

/-! ## The exact number of bytes -/

/-- the exact number of bytes of a line, none if it cannot be read -/
def Line.width (set : InstructionSet) (line : Line) : Nat :=
  match Statement.read set line.body with
  | .ok s => s.width
  | .error _ => 0

theorem Line.width_of_read {set : InstructionSet} {line : Line} {s : Statement}
    (h : Statement.read set line.body = .ok s) : line.width set = s.width := by
  unfold Line.width
  rw [h]

def linesWidth (set : InstructionSet) (ls : List Line) : Nat := (ls.map (Line.width set)).sum

theorem linesWidth_cons (set : InstructionSet) (line : Line) (ls : List Line) :
    linesWidth set (line :: ls) = line.width set + linesWidth set ls := by
  simp [linesWidth]

theorem linesWidth_append (set : InstructionSet) (ls ls' : List Line) :
    linesWidth set (ls ++ ls') = linesWidth set ls + linesWidth set ls' := by
  simp [linesWidth]

theorem Line.width_le_length (line : Line) : line.width .standard ≤ line.body.length := by
  cases h : Statement.read .standard line.body with
  | error fault =>
    unfold Line.width
    rw [h]
    exact Nat.zero_le _
  | ok s =>
    rw [Line.width_of_read h]
    exact ((Statement.read_eq_ok_iff _ _ _).mp h).width_le_length

theorem linesWidth_le_bodies (ls : List Line) :
    linesWidth .standard ls ≤ (ls.flatMap Line.body).length := by
  induction ls with
  | nil => exact Nat.le_refl _
  | cons line ls ih =>
    have hline := line.width_le_length
    rw [linesWidth_cons, List.flatMap_cons, List.length_append]
    omega

theorem linesWidth_le (source : Text) :
    linesWidth .standard (sourceLines source) ≤ byteLength source :=
  calc linesWidth .standard (sourceLines source)
      ≤ ((sourceLines source).flatMap Line.body).length := linesWidth_le_bodies _
    _ ≤ source.length := (bodies_sublist source).length_le
    _ ≤ byteLength source := length_le_byteLength source

/-! ## Counters -/

/-- a run adds up what its steps add to the counter, modulo `2 ^ 32` -/
theorem counter_foldlM {σ : Type} (f : σ → Line → Except LineError σ) (counter : σ → UInt32)
    (set : InstructionSet)
    (hstep : ∀ s line s', f s line = .ok s' →
      counter s' = counter s + UInt32.ofNat (line.width set))
    (ls : List Line) (s s' : σ) (h : ls.foldlM f s = .ok s') :
    counter s' = counter s + UInt32.ofNat (linesWidth set ls) := by
  induction ls generalizing s with
  | nil =>
    obtain rfl := Except.ok.inj h
    exact (UInt32.add_zero _).symm
  | cons line ls ih =>
    rw [foldlM_cons_eq, bind_eq_ok_iff] at h
    obtain ⟨s₁, hline, hrest⟩ := h
    rw [ih s₁ hrest, hstep s line s₁ hline, linesWidth_cons, UInt32.ofNat_add, UInt32.add_assoc]

theorem Layout.size_bind {l l' : Layout} {label : Option Text} (h : l.bind label = .ok l') :
    l'.size = l.size := by
  cases label with
  | none => rw [Except.ok.inj h]
  | some name =>
    obtain ⟨symbols, -, rfl⟩ := (map_eq_ok_iff _ _ _).mp h
    rfl

theorem Layout.size_addLine (set : InstructionSet) (l : Layout) (line : Line) (l' : Layout)
    (h : l.addLine set line = .ok l') : l'.size = l.size + UInt32.ofNat (line.width set) := by
  unfold addLine at h
  rw [pin_eq_ok_iff, bind_eq_ok_iff] at h
  obtain ⟨l₁, hbind, hreserve⟩ := h
  obtain ⟨s, hs, rfl⟩ := (map_eq_ok_iff _ _ _).mp hreserve
  show l₁.size + s.size = _
  rw [size_bind hbind, s.size_eq, Line.width_of_read hs]

theorem Emission.next_addLine (set : InstructionSet) (symbols : Symbols) (e : Emission)
    (line : Line) (e' : Emission) (h : e.addLine set symbols line = .ok e') :
    e'.next = e.next + UInt32.ofNat (line.width set) := by
  rw [addLine_eq, map_eq_ok_iff] at h
  obtain ⟨bs, hbs, rfl⟩ := h
  obtain ⟨s, hs, henc⟩ := (Line.encode_eq_ok_iff _ _ _ _).mp hbs
  rw [Image.next_foldl_push, henc.length_eq, Line.width_of_read hs.read_eq]

theorem size_layOut {set : InstructionSet} {ls : List Line} {l : Layout}
    (h : layOut set ls = .ok l) : l.size = UInt32.ofNat (linesWidth set ls) := by
  rw [counter_foldlM (Layout.addLine set) Layout.size set (Layout.size_addLine set) ls {} l h]
  exact UInt32.zero_add _

theorem next_of_foldlM {set : InstructionSet} {symbols : Symbols} {ls : List Line} {e : Emission}
    (h : ls.foldlM (Emission.addLine set symbols) {} = .ok e) :
    e.next = UInt32.ofNat (linesWidth set ls) := by
  rw [counter_foldlM (Emission.addLine set symbols) Emission.next set
    (Emission.next_addLine set symbols) ls {} e h]
  exact UInt32.zero_add _

/-! ## The text that has been read -/

/-- what has been read of a text when a line is reached -/
theorem exists_text_above {source : Text} {before : List Line} {line : Line} {after : List Line}
    (h : sourceLines source = before ++ line :: after) :
    ∃ above below, source = above ++ below ∧ Terminated '\n' above ∧
      (lines above).length + 1 = line.number ∧ sourceLines above = before := by
  obtain ⟨raws, rest, hraws, hnumber, hbefore, -⟩ := linesFrom_eq_append_cons 1 _ _ _ _ h
  have hlt : raws.length < (lines source).length := by
    rw [hraws, List.length_append, List.length_cons]
    omega
  obtain ⟨above, below, hsplit, habove, hlines⟩ := exists_lines_eq_take source raws.length hlt
  rw [hraws, List.take_left] at hlines
  refine ⟨above, below, hsplit, habove, by rw [hlines, hnumber, Nat.add_comm], ?_⟩
  rw [sourceLines_eq, hlines, hbefore]

/-- **The location counter never wraps.**  Take a text of less than `2 ^ 32` bytes and the CPU's
instructions, and a line of it that a reading comes to.  The bytes of the lines above are no more
than the bytes of the text above.  The size of the line's statement is exact, so a data directive
has less than `2 ^ 32` items.  The counter of the first reading is the exact number of bytes above.
So is that of the second one, whatever its table is, and it stays exact while it stores any bytes up
to the width of the statement, which is how many the statement has if all its operands have bytes.
In the end the size of the program is exact and at most the number of bytes of the text. -/
theorem counter_never_wraps (source : Text) (hlen : byteLength source < 2 ^ 32) :
    (∀ before line after, sourceLines source = before ++ line :: after →
      (∃ above below, source = above ++ below ∧ Terminated '\n' above ∧
        (lines above).length + 1 = line.number ∧ sourceLines above = before ∧
        linesWidth .standard before ≤ byteLength above) ∧
      (∀ s, Statement.read .standard line.body = .ok s → s.size.toNat = s.width) ∧
      (∀ items, Statement.read .standard line.body = .ok (.data items) → items.length < 2 ^ 32) ∧
      (∀ l, layOut .standard before = .ok l → l.size.toNat = linesWidth .standard before) ∧
      ∀ symbols e, before.foldlM (Emission.addLine .standard symbols) {} = .ok e →
        e.next.toNat = linesWidth .standard before ∧
        ∀ s, Statement.read .standard line.body = .ok s →
          (∀ bs, s.bytes symbols = .ok bs → bs.length = s.width) ∧
          ∀ bs : List UInt8, bs.length ≤ s.width →
            (bs.foldl Emission.push e).next.toNat = linesWidth .standard before + bs.length) ∧
    ∀ l, layOut .standard (sourceLines source) = .ok l →
      l.size.toNat = linesWidth .standard (sourceLines source) ∧
        l.size.toNat ≤ byteLength source := by
  have hall := linesWidth_le source
  have hexact : ∀ n, n ≤ linesWidth .standard (sourceLines source) → (UInt32.ofNat n).toNat = n :=
    fun n hn => UInt32.toNat_ofNat_of_lt' (by show n < 2 ^ 32; omega)
  constructor
  · intro before line after hlines
    have hsum : linesWidth .standard (sourceLines source) = linesWidth .standard before +
        (line.width .standard + linesWidth .standard after) := by
      rw [hlines, linesWidth_append, linesWidth_cons]
    have hwidth : ∀ s, Statement.read .standard line.body = .ok s →
        linesWidth .standard before + s.width ≤ linesWidth .standard (sourceLines source) := by
      intro s hs
      rw [hsum, Line.width_of_read hs]
      omega
    refine ⟨?_, fun s hs => ?_, fun items hs => ?_, fun l hl => ?_, fun symbols e he => ⟨?_, ?_⟩⟩
    · obtain ⟨above, below, hsplit, habove, hnumber, hbefore⟩ := exists_text_above hlines
      exact ⟨above, below, hsplit, habove, hnumber, hbefore, hbefore ▸ linesWidth_le above⟩
    · have hle := hwidth s hs
      rw [s.size_eq, hexact _ (by omega)]
    · have hle : linesWidth .standard before + items.length ≤ _ := hwidth _ hs
      omega
    · rw [size_layOut hl, hexact _ (by omega)]
    · rw [next_of_foldlM he, hexact _ (by omega)]
    · intro s hs
      have hle := hwidth s hs
      refine ⟨fun bs hbs => ((Statement.bytes_eq_ok_iff _ _ _).mp hbs).length_eq, fun bs hbs => ?_⟩
      rw [Image.next_foldl_push, next_of_foldlM he, ← UInt32.ofNat_add, hexact _ (by omega)]
  · intro l hl
    rw [size_layOut hl, hexact _ (Nat.le_refl _)]
    exact ⟨rfl, hall⟩

/-- a jump to a label that nothing defines, behind three bytes of data and above a line that cannot
be read: both counters are at 3, and at 4 when the opcode is stored -/
theorem counter_never_wraps_jump :
    byteLength "DB 1, 2, 3\nJMP far\n?".toList < 2 ^ 32 ∧
    ∃ before line after l e,
      sourceLines "DB 1, 2, 3\nJMP far\n?".toList = before ++ line :: after ∧
      layOut .standard before = .ok l ∧
      before.foldlM (Emission.addLine .standard ∅) {} = .ok e ∧
      linesWidth .standard before = 3 ∧ l.size.toNat = linesWidth .standard before ∧
      (Emission.push e 4).next.toNat = linesWidth .standard before + 1 := by
  have hlines : sourceLines "DB 1, 2, 3\nJMP far\n?".toList =
      [⟨1, "DB 1, 2, 3".toList, none, "DB 1, 2, 3".toList⟩] ++
        ⟨2, "JMP far".toList, none, "JMP far".toList⟩ :: [⟨3, "?".toList, none, "?".toList⟩] := by
    decide +kernel
  have hl : layOut .standard [⟨1, "DB 1, 2, 3".toList, none, "DB 1, 2, 3".toList⟩] =
      .ok ⟨∅, 3⟩ := by decide +kernel
  have he : [(⟨1, "DB 1, 2, 3".toList, none, "DB 1, 2, 3".toList⟩ : Line)].foldlM
      (Emission.addLine .standard ∅) {} = .ok ⟨.ofBytes [1, 2, 3], 3⟩ := by decide +kernel
  have hjump : Statement.read .standard "JMP far".toList =
      .ok (.instruction ⟨InstructionSet.byte "JMP" [.value] 4, some "far".toList⟩) := by
    decide +kernel
  obtain ⟨hat, -⟩ := counter_never_wraps "DB 1, 2, 3\nJMP far\n?".toList (by decide)
  obtain ⟨-, -, -, hlayout, hemission⟩ := hat _ _ _ hlines
  exact ⟨by decide, _, _, _, _, _, hlines, hl, he, by decide +kernel, hlayout _ hl,
    ((hemission ∅ _ he).2 _ hjump).2 [4] (by decide)⟩

end TinyCpu

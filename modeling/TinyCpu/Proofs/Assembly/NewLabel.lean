import TinyCpu.Proofs.Assembly.Reference
import TinyCpu.Proofs.Assembly.Restyle

/-!
# One more label

A line that holds a new label and nothing else takes no room, and it catches no operand: what was
read as a register, a number or another label is still read so.

* `Symbols.Within`          the labels of one table are labels of another, at the same addresses;
* `operandByte_within`      an operand keeps its byte under a larger table, and so do programs;
* `Program.Same`            programs that differ in the numbers and the texts of their lines only;
* `Program.labelAt_insert`  the labels of a program with one more of them;
* `InsertLabel`             the line `name:` put between two lines of a text, or at one of its ends;
* `assemble_insertLabel`    the text is assembled as before, with one symbol more.
-/

namespace TinyCpu
open Text

/-! ## Larger tables -/

/-- every label of the first table is in the second one, at the same address -/
def Symbols.Within (s s' : Symbols) : Prop :=
  ∀ name a, s.get? name = some a → s'.get? name = some a

theorem Symbols.within_insert (s : Symbols) (name : Text) (a : UInt32) (h : s.get? name = none) :
    s.Within (s.insert name a) := by
  intro name' a' ha
  have hne : name' ≠ name := by
    intro heq
    rw [heq, h] at ha
    exact absurd ha (by simp)
  rw [SortedMap.get?_insert_of_ne _ _ _ _ hne, ha]

section
variable {s s' : Symbols} (h : s.Within s')
include h

/-- only a label is looked up, and one that is found in a table is found in a larger one -/
theorem operandByte_within (t : Text) (b : UInt8) (hb : operandByte s t = .ok b) :
    operandByte s' t = .ok b := by
  rcases operandBody_cases (operandBody t) with hnil | ⟨v, hv⟩ | ⟨hstart, hnot⟩ | hlabel
  · rwa [operandByte_of_nil s' t hnil, ← operandByte_of_nil s t hnil]
  · rwa [operandByte_of_literal s' t v hv, ← operandByte_of_literal s t v hv]
  · rwa [operandByte_of_malformed s' t hstart hnot, ← operandByte_of_malformed s t hstart hnot]
  · rw [operandByte_of_label s t hlabel, labelByte_eq_ok_iff] at hb
    obtain ⟨a, ha, hle, hbyte⟩ := hb
    rw [operandByte_of_label s' t hlabel, labelByte_eq_ok_iff]
    exact ⟨a, h _ a ha, hle, hbyte⟩

theorem Statement.Encodes.within {st : Statement} {bs : List UInt8} (hst : st.Encodes s bs) :
    st.Encodes s' bs := by
  cases hst with
  | blank => exact .blank
  | implied m hm => exact .implied m hm
  | byte m operand b hm ho hb => exact .byte m operand b hm ho (operandByte_within h operand b hb)
  | data items _ hitems =>
    exact .data items bs (hitems.imp fun item b => operandByte_within h item b)

theorem Program.Encodes.within {p : Program} {bss : List (List UInt8)} (hp : p.Encodes s bss) :
    p.Encodes s' bss :=
  hp.imp fun _ _ hq => hq.within h

end

/-! ## Lines that say the same -/

structure Line.Same (line line' : Line) : Prop where
  label : line'.label = line.label
  body : line'.body = line.body

theorem forall₂_same_moveDown (j k : Nat) (source : List Line) :
    List.Forall₂ Line.Same (source.map (Line.moveDown j)) (source.map (Line.moveDown k)) := by
  rw [List.forall₂_map_left_iff, List.forall₂_map_right_iff]
  exact List.forall₂_same.mpr fun _ _ => ⟨rfl, rfl⟩

theorem forall₂_same_refl (source : List Line) : List.Forall₂ Line.Same source source :=
  List.forall₂_same.mpr fun _ _ => ⟨rfl, rfl⟩

namespace Program

def Same (p p' : Program) : Prop :=
  List.Forall₂ (fun q q' => q'.1.label = q.1.label ∧ q'.2 = q.2) p p'

theorem Reads.exists_same {set : InstructionSet} {ls ls' : List Line} {p : Program}
    (hp : p.Reads set ls) (h : List.Forall₂ Line.Same ls ls') :
    ∃ p' : Program, p'.Reads set ls' ∧ p.Same p' := by
  induction h generalizing p with
  | nil =>
    obtain rfl : p = [] := List.map_eq_nil_iff.mp hp.lines
    exact ⟨[], reads_nil set, .nil⟩
  | @cons line line' ls ls' hline _ ih =>
    obtain ⟨q, p, rfl, hq, hlines⟩ := List.map_eq_cons_iff.mp hp.lines
    have hmeans := hp.bodies q List.mem_cons_self
    rw [hq, ← hline.body] at hmeans
    obtain ⟨p', hp', hsame⟩ := ih ⟨hlines, fun r hr => hp.bodies r (List.mem_cons_of_mem _ hr)⟩
    exact ⟨(line', q.2) :: p', hp'.cons hmeans, .cons ⟨by rw [hq, hline.label], rfl⟩ hsame⟩

theorem labelAt_cons (q : Line × Statement) (p : Program) (name : Text) (n : Nat) :
    LabelAt (q :: p) name n ↔
      (∃ label, q.1.label = some label ∧ name = lower label ∧ n = 0) ∨
        ∃ k, p.LabelAt name k ∧ n = q.2.width + k := by
  constructor
  · rintro ⟨before, r, after, label, hsplit, hl, hn, rfl⟩
    cases before with
    | nil =>
      obtain ⟨rfl, rfl⟩ := List.cons.inj hsplit
      exact .inl ⟨label, hl, hn, rfl⟩
    | cons r' before =>
      obtain ⟨rfl, rfl⟩ := List.cons.inj hsplit
      exact .inr ⟨size before, ⟨before, r, after, label, rfl, hl, hn, rfl⟩, size_cons q before⟩
  · rintro (⟨label, hl, hn, rfl⟩ | ⟨k, ⟨before, r, after, label, rfl, hl, hn, rfl⟩, rfl⟩)
    · exact ⟨[], q, p, label, rfl, hl, hn, rfl⟩
    · exact ⟨q :: before, r, after, label, rfl, hl, hn, (size_cons q before).symm⟩

section
variable {p p' : Program} (h : p.Same p')
include h

theorem Same.size_eq : p'.size = p.size := by
  induction h with
  | nil => rfl
  | cons hq _ ih => rw [size_cons, size_cons, hq.2, ih]

theorem Same.labels_eq : p'.labels = p.labels := by
  induction h with
  | nil => rfl
  | cons hq _ ih => rw [labels_cons, labels_cons, hq.1, ih]

theorem Same.labelAt_iff (name : Text) (n : Nat) : p'.LabelAt name n ↔ p.LabelAt name n := by
  induction h generalizing n with
  | nil => exact Iff.rfl
  | cons hq _ ih => simp only [labelAt_cons, hq.1, hq.2, ih]

theorem Same.encodes {s : Symbols} {bss : List (List UInt8)} (hp : p.Encodes s bss) :
    p'.Encodes s bss := by
  induction h generalizing bss with
  | nil => exact hp
  | cons hq _ ih =>
    cases hp with
    | cons hbs hbss => exact .cons (by rw [hq.2]; exact hbs) (ih hbss)

end

/-! ## A line with a label only -/

section
variable (p₁ p₂ : Program) (line : Line)

theorem size_insert : size (p₁ ++ (line, .blank) :: p₂) = size (p₁ ++ p₂) := by
  rw [size_append, size_append, size_cons]
  exact congrArg (p₁.size + ·) (Nat.zero_add _)

variable {name : Text} (hl : line.label = some name)
include hl

theorem nodup_labels_insert (hnd : (labels (p₁ ++ p₂)).Nodup)
    (hnew : lower name ∉ labels (p₁ ++ p₂)) :
    (labels (p₁ ++ (line, .blank) :: p₂)).Nodup := by
  rw [labels_append] at hnd hnew
  rw [labels_append, labels_cons, hl]
  exact List.nodup_middle.mpr (List.nodup_cons.mpr ⟨hnew, hnd⟩)

/-- the label is at the size of the lines above it, and the other labels stay where they are -/
theorem labelAt_insert (name' : Text) (n : Nat) :
    LabelAt (p₁ ++ (line, .blank) :: p₂) name' n ↔
      LabelAt (p₁ ++ p₂) name' n ∨ name' = lower name ∧ n = p₁.size := by
  rw [labelAt_append, labelAt_append]
  simp only [labelAt_cons, hl, Option.some.injEq, exists_eq_left']
  constructor
  · rintro (h | ⟨k, ⟨hn, rfl⟩ | ⟨j, hj, rfl⟩, rfl⟩)
    · exact .inl (.inl h)
    · exact .inr ⟨hn, rfl⟩
    · exact .inl (.inr ⟨j, hj, congrArg (p₁.size + ·) (Nat.zero_add j)⟩)
  · rintro ((h | ⟨j, hj, rfl⟩) | ⟨hn, rfl⟩)
    · exact .inl h
    · exact .inr ⟨j, .inr ⟨j, hj, (Nat.zero_add j).symm⟩, rfl⟩
    · exact .inr ⟨0, .inl ⟨hn, rfl⟩, rfl⟩

end

end Program

/-! ## A label put into a text -/

def LineBreak (t : Text) : Prop := t = ['\n'] ∨ t = ['\r', '\n']

/-- the line `name:` put into a text, below the part `above` of it -/
inductive InsertLabel (name : Text) : (above source t : Text) → Prop
  /-- as a line of its own between the lines above and those below -/
  | between {above below ending : Text} (ha : Terminated '\n' above) (he : LineBreak ending) :
      InsertLabel name above (above ++ below) (above ++ (name ++ ':' :: ending) ++ below)
  /-- as a last line without a line end -/
  | last {source : Text} (hs : Terminated '\n' source) :
      InsertLabel name source source (source ++ (name ++ [':']))
  /-- below a last line that had no line end -/
  | ended {source line ending : Text} (hl : LineBreak line) (he : ending = [] ∨ LineBreak ending) :
      InsertLabel name source source (source ++ line ++ (name ++ ':' :: ending))

/-- the lines are those above and below, unchanged but for their numbers and texts, with one line
between them that holds the label only -/
def LabelInserted (name : Text) (above below ls : List Line) : Prop :=
  ∃ above' line below', ls = above' ++ line :: below' ∧ List.Forall₂ Line.Same above above' ∧
    List.Forall₂ Line.Same below below' ∧ line.label = some name ∧ line.body = []

section
variable {name : Text} (h : isName name = true)
include h

theorem Line.read?_label (number : Nat) :
    read? number (name ++ [':']) = some ⟨number, name ++ [':'], some name, []⟩ := by
  have hplain := Operand.plain_of_isToken name (isToken_of_isName h)
  have hcode : code (name ++ [':']) = name ++ [':'] := by
    refine List.takeWhile_eq_self_iff.mpr fun c hc => bne_iff_ne.mpr ?_
    rintro rfl
    rcases List.mem_append.mp hc with hc' | hc'
    · exact (hplain ';' hc').2 (by decide)
    · exact absurd hc' (by decide)
  have htrim : trim (name ++ [':']) = name ++ [':'] := by
    refine trim_of_trimmed _ (trimmed_of_forall _ fun c hc => ?_)
    rcases List.mem_append.mp hc with hc' | hc'
    · exact (hplain c hc').1
    · rw [List.mem_singleton.mp hc']
      decide
  have hsplit : splitLabel (name ++ [':']) = (some name, []) := by
    have hcut : cut (· == ':') (name ++ [':']) = some (name, []) := by
      refine cut_append _ name ':' [] (fun c hc => beq_eq_false_iff_ne.mpr ?_) rfl
      rintro rfl
      exact (hplain ':' hc).2 (by decide)
    unfold splitLabel
    rw [hcut]
    exact if_pos h
  have hne : (name ++ [':']).isEmpty = false := by simp
  rw [read?_eq, hcode, htrim, hne, hsplit]
  rfl

theorem sourceLines_label (ending : Text) (he : ending = [] ∨ LineBreak ending) :
    sourceLines (name ++ ':' :: ending) = [⟨1, name ++ [':'], some name, []⟩] := by
  have hplain := Operand.plain_of_isToken name (isToken_of_isName h)
  have hnewline : '\n' ∉ name ++ [':'] := by
    intro hmem
    rcases List.mem_append.mp hmem with hm | hm
    · exact absurd (hplain '\n' hm).1 (by decide)
    · exact absurd hm (by decide)
  have hlines : lines (name ++ ':' :: ending) = [name ++ [':']] := by
    rcases he with rfl | rfl | rfl
    · exact lines_of_not_mem _ (by simp) hnewline
    · have hline := lines_newline (name ++ [':']) hnewline
      have hkeep : dropReturn (name ++ [':']) = name ++ [':'] := if_neg (by simp)
      rwa [hkeep, List.append_assoc] at hline
    · have hline := lines_newline (name ++ [':'] ++ ['\r']) (by simpa using hnewline)
      have hdrop : dropReturn (name ++ [':'] ++ ['\r']) = name ++ [':'] := by
        unfold dropReturn
        rw [List.getLast?_concat, if_pos rfl, List.dropLast_concat]
      rwa [hdrop, List.append_assoc, List.append_assoc] at hline
  rw [sourceLines_eq, hlines, linesFrom_cons, Line.read?_label h]
  rfl

/-- a label below a text of whole lines, which may be another one that says the same -/
theorem labelInserted_last {source source' : Text} (ending : Text) (hs : Terminated '\n' source')
    (he : ending = [] ∨ LineBreak ending)
    (hsame : List.Forall₂ Line.Same (sourceLines source) (sourceLines source')) :
    LabelInserted name (sourceLines source) []
      (sourceLines (source' ++ (name ++ ':' :: ending))) := by
  refine ⟨sourceLines source', ⟨1 + source'.count '\n', name ++ [':'], some name, []⟩, [], ?_,
    hsame, .nil, rfl, rfl⟩
  rw [sourceLines_append source' _ hs, sourceLines_label h ending he]
  rfl

theorem InsertLabel.labelInserted {above source t : Text} (hi : InsertLabel name above source t) :
    ∃ below, sourceLines source = sourceLines above ++ below ∧
      LabelInserted name (sourceLines above) below (sourceLines t) := by
  cases hi with
  | @between below ending ha he =>
    have hend : Terminated '\n' (name ++ ':' :: ending) := by
      rcases he with rfl | rfl <;> exact .inr (by simp)
    have hmove : Line.moveDown (above.count '\n') ∘
        Line.moveDown ((name ++ ':' :: ending).count '\n') =
          Line.moveDown ((name ++ ':' :: ending).count '\n' + above.count '\n') :=
      funext fun line => line.moveDown_moveDown _ _
    refine ⟨_, sourceLines_append above below ha, sourceLines above,
      ⟨1 + above.count '\n', name ++ [':'], some name, []⟩, _, ?_, forall₂_same_refl _,
      forall₂_same_moveDown _ ((name ++ ':' :: ending).count '\n' + above.count '\n') _, rfl, rfl⟩
    rw [List.append_assoc, sourceLines_append above _ ha, sourceLines_append _ below hend,
      sourceLines_label h ending (.inr he), List.map_append, List.map_map, hmove]
    rfl
  | last hs =>
    exact ⟨[], (List.append_nil _).symm,
      labelInserted_last h [] hs (.inl rfl) (forall₂_same_refl _)⟩
  | @ended line ending hl he =>
    -- the line end that is written first adds nothing to what the lines above say
    have hnewline : Restyled above (above ++ ['\n']) _ :=
      .tail .refl (.insertLast (.blank blanks_nil List.not_mem_nil))
    obtain ⟨k, hk⟩ : ∃ k, Restyled above (above ++ line) k := by
      rcases hl with rfl | rfl
      · exact ⟨_, hnewline⟩
      · exact ⟨_, .tail hnewline .returned⟩
    have hterminated : Terminated '\n' (above ++ line) := by
      rcases hl with rfl | rfl <;> exact .inr (by simp)
    exact ⟨[], (List.append_nil _).symm, labelInserted_last h ending hterminated he
      (hk.forall₂_sourceLines.imp fun _ _ hline => ⟨hline.label, hline.body⟩)⟩

end

/-! ## Assembly -/

theorem Program.get?_symbols_eq_none {p : Program} {name : Text} (h : name ∉ p.labels) :
    p.layout.symbols.get? name = none := by
  rw [← contains_symbols_iff] at h
  unfold SortedMap.contains at h
  simpa using h

theorem Program.symbols_insert {p₁ p₂ p : Program} {line : Line} {name : Text}
    (hl : line.label = some name) (hnd : (labels (p₁ ++ p₂)).Nodup)
    (hnew : lower name ∉ labels (p₁ ++ p₂)) (hsize : size (p₁ ++ p₂) < 2 ^ 32)
    (hsame : Same (p₁ ++ (line, .blank) :: p₂) p) (hnd' : p.labels.Nodup) :
    p.layout.symbols = (layout (p₁ ++ p₂)).symbols.insert (lower name) (UInt32.ofNat p₁.size) := by
  have hnat : (UInt32.ofNat p₁.size).toNat = p₁.size := by
    rw [size_append] at hsize
    exact UInt32.toNat_ofNat_of_lt' (by show p₁.size < 2 ^ 32; omega)
  have hlocates := p.layout_locates hnd' (by rwa [hsame.size_eq, size_insert])
  have hlookup : ∀ name' a, p.layout.symbols.get? name' = some a ↔
      (layout (p₁ ++ p₂)).symbols.get? name' = some a ∨
        name' = lower name ∧ a.toNat = p₁.size := by
    intro name' a
    rw [layout_locates (p₁ ++ p₂) hnd hsize name' a]
    exact (hlocates name' a).trans
      ((hsame.labelAt_iff name' a.toNat).trans (labelAt_insert p₁ p₂ line hl name' a.toNat))
  apply SortedMap.ext_get?
  intro name'
  apply Option.ext
  intro a
  rw [hlookup]
  by_cases hname : name' = lower name
  · rw [hname, SortedMap.get?_insert_self, get?_symbols_eq_none hnew, Option.some.injEq,
      ← UInt32.toNat_inj, hnat]
    simp [eq_comm]
  · rw [SortedMap.get?_insert_of_ne _ _ _ _ hname]
    simp [hname]

/-- **A new label changes no code.**  Let a text of less than `2 ^ 31` bytes be assembled, and let
`name` be a name, a register keyword or a mnemonic included, that no line of the text carries as its
label in any case.  With the line `name:` put between two lines of the text or at one of its ends,
the text is assembled to the same image.  Its symbols are those of before and the name in lower
case, at the number of bytes that the lines above it store. -/
theorem assemble_insertLabel (set : InstructionSet) (name above source t : Text) (asm : Assembly)
    (hlen : byteLength source < 2 ^ 31) (hok : assemble set source = .ok asm)
    (hname : isName name = true)
    (hnew : ∀ line ∈ sourceLines source, ∀ label, line.label = some label →
      sameLetters label name = false)
    (hinsert : InsertLabel name above source t) :
    ∃ asm' stored a, assemble set t = .ok asm' ∧ asm'.image = asm.image ∧
      asm.symbols.get? (lower name) = none ∧ asm'.symbols = asm.symbols.insert (lower name) a ∧
      emit set asm.symbols (sourceLines above) = .ok stored ∧ a.toNat = stored.size := by
  obtain ⟨below, hlines, above', line, below', hafter, habove, hbelow, hl, hbody⟩ :=
    hinsert.labelInserted hname
  obtain ⟨p, bss, hp, hnd, henc, rfl⟩ := (assemble_eq_ok_iff set source asm).mp hok
  have hsize := hp.size_lt hlen
  have hfree : lower name ∉ p.labels := by
    rw [hp.mem_labels_iff]
    rintro ⟨line, hline, label, hlabel, heq⟩
    have hne := hnew line hline label hlabel
    rw [(sameLetters_iff label name).mpr heq] at hne
    exact absurd hne (by decide)
  rw [hlines] at hp
  obtain ⟨p₁, p₂, rfl, hp₁, hp₂⟩ := hp.of_append
  obtain ⟨bss₁, bss₂, rfl, henc₁, henc₂⟩ := henc.of_append
  -- the program of the new text: the same statements, and a blank one that carries the label
  obtain ⟨p₁', hp₁', hsame₁⟩ := hp₁.exists_same habove
  obtain ⟨p₂', hp₂', hsame₂⟩ := hp₂.exists_same hbelow
  have hblank : Statement.Means set line.body .blank := hbody ▸ .blank
  have hreads : Program.Reads set (sourceLines t) (p₁' ++ (line, .blank) :: p₂') := by
    rw [hafter]
    exact hp₁'.append (hp₂'.cons hblank)
  have hsame : Program.Same (p₁ ++ (line, .blank) :: p₂) (p₁' ++ (line, .blank) :: p₂') :=
    List.rel_append hsame₁ (.cons ⟨rfl, rfl⟩ hsame₂)
  have hnd' : (Program.labels (p₁' ++ (line, .blank) :: p₂')).Nodup := by
    rw [hsame.labels_eq]
    exact Program.nodup_labels_insert p₁ p₂ line hl hnd hfree
  have hsymbols := Program.symbols_insert hl hnd hfree hsize hsame hnd'
  have hnone := Program.get?_symbols_eq_none hfree
  have hwithin := Symbols.within_insert _ _ (UInt32.ofNat p₁.size) hnone
  rw [← hsymbols] at hwithin
  have henc' : Program.Encodes _ (p₁' ++ (line, .blank) :: p₂') (bss₁ ++ [] :: bss₂) :=
    hsame.encodes (List.rel_append (henc₁.within hwithin) (.cons .blank (henc₂.within hwithin)))
  have hstored := (emit_eq_ok_iff set _ _ _).mpr ⟨p₁, bss₁, hp₁, henc₁, rfl⟩
  have hbytes := henc₁.length_flatten
  rw [Program.size_append] at hsize
  refine ⟨_, _, UInt32.ofNat p₁.size,
    (assemble_eq_ok_iff set t _).mpr ⟨_, _, hreads, hnd', henc', rfl⟩, ?_, hnone, hsymbols, hstored, ?_⟩
  · rw [List.flatten_append, List.flatten_append]
    rfl
  · rw [Image.size_ofBytes _ (by omega), hbytes]
    exact UInt32.toNat_ofNat_of_lt' (by show p₁.size < 2 ^ 32; omega)

/-- a label called like a register, below a line that uses the register -/
theorem assemble_insertLabel_register :
    byteLength "MOV A, 5\nJMP end\nend: HALT".toList < 2 ^ 31 ∧
    InsertLabel "A".toList "MOV A, 5\n".toList "MOV A, 5\nJMP end\nend: HALT".toList
      "MOV A, 5\nA:\nJMP end\nend: HALT".toList ∧
    ∃ asm asm', assemble .standard "MOV A, 5\nJMP end\nend: HALT".toList = .ok asm ∧
      assemble .standard "MOV A, 5\nA:\nJMP end\nend: HALT".toList = .ok asm' ∧
      asm.symbols.get? "a".toList = none ∧ asm'.image = asm.image ∧
      asm'.symbols = asm.symbols.insert "a".toList 2 := by
  have hok : assemble .standard "MOV A, 5\nJMP end\nend: HALT".toList =
      .ok ⟨.ofList [("end".toList, 4)], .ofBytes [6, 5, 4, 4, 12]⟩ := by decide +kernel
  have hinsert : InsertLabel "A".toList "MOV A, 5\n".toList "MOV A, 5\nJMP end\nend: HALT".toList
      "MOV A, 5\nA:\nJMP end\nend: HALT".toList :=
    @InsertLabel.between "A".toList "MOV A, 5\n".toList "JMP end\nend: HALT".toList ['\n']
      (by decide) (.inl rfl)
  have hnew : ∀ line ∈ sourceLines "MOV A, 5\nJMP end\nend: HALT".toList, ∀ label,
      line.label = some label → sameLetters label "A".toList = false := by
    have hlabels : (sourceLines "MOV A, 5\nJMP end\nend: HALT".toList).all (fun line =>
        line.label.all fun label => !sameLetters label "A".toList) = true := by decide +kernel
    intro line hline label hlabel
    have hall := List.all_eq_true.mp hlabels line hline
    rw [hlabel] at hall
    exact Bool.not_eq_true' _ ▸ hall
  have habove : emit .standard (.ofList [("end".toList, 4)]) (sourceLines "MOV A, 5\n".toList) =
      .ok (.ofBytes [6, 5]) := by decide +kernel
  obtain ⟨asm', stored, a, hok', himage, hnone, hsymbols, hstored, ha⟩ :=
    assemble_insertLabel .standard "A".toList _ _ _ _ (by decide) hok (by decide) hnew hinsert
  obtain rfl := Except.ok.inj (habove.symm.trans hstored)
  have htwo : a = 2 := UInt32.toNat_inj.mp (ha.trans (by decide))
  rw [htwo] at hsymbols
  exact ⟨by decide, hinsert, _, asm', hok, hok', hnone, himage, hsymbols⟩

end TinyCpu

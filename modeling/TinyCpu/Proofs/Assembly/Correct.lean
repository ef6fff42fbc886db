import TinyCpu.Proofs.Assembly.Emission

/-!
# Assembly is correct

The two readings of a program text put together.

* `assemble_eq_ok_iff`     when a text can be assembled, and what it becomes;
* `assemble_correct`       the same for texts that fit the address space, in exact numbers;
* `layOut_agrees_emit`     both readings count the same bytes, whatever table the second is given.
-/

namespace TinyCpu
open Text

/-- a text can be assembled if its bodies can be read, its labels are different and its operands
have bytes under the addresses of its labels -/
theorem assemble_eq_ok_iff (set : InstructionSet) (source : Text) (asm : Assembly) :
    assemble set source = .ok asm ↔ ∃ (p : Program) (bss : List (List UInt8)),
      p.Reads set (sourceLines source) ∧ p.labels.Nodup ∧ p.Encodes p.layout.symbols bss ∧
        asm = ⟨p.layout.symbols, Image.ofBytes bss.flatten⟩ := by
  unfold assemble
  rw [bind_eq_ok_iff]
  constructor
  · rintro ⟨l, hl, h⟩
    obtain ⟨p, hp, hnd, rfl⟩ := (layOut_eq_ok_iff set _ l).mp hl
    obtain ⟨image, himage, rfl⟩ := (map_eq_ok_iff _ _ _).mp h
    obtain ⟨p', bss, hp', henc, rfl⟩ := (emit_eq_ok_iff set _ _ image).mp himage
    rw [hp'.unique hp] at henc
    exact ⟨p, bss, hp, hnd, henc, rfl⟩
  · rintro ⟨p, bss, hp, hnd, henc, rfl⟩
    refine ⟨p.layout, layOut_of_nodup set _ p hp hnd, (map_eq_ok_iff _ _ _).mpr ?_⟩
    exact ⟨_, (emit_eq_ok_iff set _ _ _).mpr ⟨p, bss, hp, henc, rfl⟩, rfl⟩

theorem Program.Reads.size_lt {set : InstructionSet} {source : Text} {p : Program}
    (h : p.Reads set (sourceLines source)) (hlen : byteLength source < 2 ^ 31) :
    p.size < 2 ^ 32 := by
  have hle := h.size_le
  omega

/-- **Assembly is correct.**  A text of less than `2 ^ 31` bytes can be assembled if and only if
every line can be read, the labels are different up to case, and every operand has a byte under the
table that gives each label the sum of the sizes of the lines before it.  The symbols are then this
table, and the image holds the bytes of the lines, in their order, from address zero on. -/
theorem assemble_correct (set : InstructionSet) (source : Text)
    (hlen : byteLength source < 2 ^ 31) :
    ((∃ asm, assemble set source = .ok asm) ↔
      ∃ p : Program, p.Reads set (sourceLines source) ∧ p.labels.Nodup ∧
        ∃ symbols : Symbols, symbols.Locates p ∧ ∀ q ∈ p, q.2.Resolves symbols) ∧
    ∀ asm, assemble set source = .ok asm → ∀ p : Program, p.Reads set (sourceLines source) →
      asm.symbols.Locates p ∧ (∀ a, asm.image.contains a = true ↔ a.toNat < p.size) ∧
        ∃ bss, p.Encodes asm.symbols bss ∧ ∀ a, asm.image.get? a = bss.flatten[a.toNat]? := by
  constructor
  · constructor
    · rintro ⟨asm, h⟩
      obtain ⟨p, bss, hp, hnd, henc, -⟩ := (assemble_eq_ok_iff set source asm).mp h
      exact ⟨p, hp, hnd, p.layout.symbols, p.layout_locates hnd (hp.size_lt hlen),
        (hp.encodes_iff _).mp ⟨bss, henc⟩⟩
    · rintro ⟨p, hp, hnd, symbols, hloc, hres⟩
      obtain ⟨bss, henc⟩ := (hp.encodes_iff symbols).mpr hres
      -- the table is known by its look-ups, so it is the one that the first reading makes
      rw [hloc.unique (p.layout_locates hnd (hp.size_lt hlen))] at henc
      exact ⟨_, (assemble_eq_ok_iff set source _).mpr ⟨p, bss, hp, hnd, henc, rfl⟩⟩
  · intro asm h p hp
    obtain ⟨p', bss, hp', hnd, henc, rfl⟩ := (assemble_eq_ok_iff set source asm).mp h
    obtain rfl := hp'.unique hp
    have hsize := hp.size_lt hlen
    have hbytes := henc.length_flatten
    refine ⟨p'.layout_locates hnd hsize, fun a => ?_, bss, henc,
      Image.get?_ofBytes bss.flatten (by omega)⟩
    rw [Image.contains_ofBytes bss.flatten (by omega) a, hbytes]

/-- a program with a reference to a label below it: its table and its bytes -/
theorem assemble_correct_forward :
    byteLength "JMP end\nDB 7, end\nend: HALT".toList < 2 ^ 31 ∧
      assemble .standard "JMP end\nDB 7, end\nend: HALT".toList =
        .ok ⟨.ofList [("end".toList, 4)], .ofBytes [4, 4, 7, 4, 12]⟩ ∧
      ∃ p : Program, p.Reads .standard (sourceLines "JMP end\nDB 7, end\nend: HALT".toList) ∧
        p.labels.Nodup ∧ Symbols.Locates (.ofList [("end".toList, 4)]) p ∧
        (∀ a, (Image.ofBytes [4, 4, 7, 4, 12]).contains a = true ↔ a.toNat < p.size) ∧
        ∃ bss, p.Encodes (.ofList [("end".toList, 4)]) bss ∧
          ∀ a, (Image.ofBytes [4, 4, 7, 4, 12]).get? a = bss.flatten[a.toNat]? := by
  have hlen : byteLength "JMP end\nDB 7, end\nend: HALT".toList < 2 ^ 31 := by decide
  have hasm : assemble .standard "JMP end\nDB 7, end\nend: HALT".toList =
      .ok ⟨.ofList [("end".toList, 4)], .ofBytes [4, 4, 7, 4, 12]⟩ := by decide +kernel
  obtain ⟨hexists, hmeaning⟩ := assemble_correct .standard _ hlen
  obtain ⟨p, hp, hnodup, -⟩ := hexists.mp ⟨_, hasm⟩
  exact ⟨hlen, hasm, p, hp, hnodup, hmeaning _ hasm p hp⟩

/-! ## Both readings -/

/-- if the second reading succeeds, so does the first, up to duplicate labels, and its size is the
end of the image -/
theorem layOut_of_emit (set : InstructionSet) (symbols : Symbols) (source : Text)
    (hlen : byteLength source < 2 ^ 31) (image : Image)
    (h : emit set symbols (sourceLines source) = .ok image) :
    (∃ e name, layOut set (sourceLines source) = .error e ∧ e.fault = .duplicateLabel name) ∨
      ∃ l, layOut set (sourceLines source) = .ok l ∧
        (∀ a, image.contains a = true ↔ a < l.size) ∧
        image.endAddress = l.size ∧ image.size = l.size.toNat := by
  obtain ⟨p, bss, hp, henc, rfl⟩ := (emit_eq_ok_iff set symbols _ image).mp h
  have hsize := hp.size_lt hlen
  have hbytes := henc.length_flatten
  have hnat : p.layout.size.toNat = p.size := UInt32.toNat_ofNat_of_lt' hsize
  refine (layOut_of_reads set _ p hp).imp_right fun ⟨_, hl⟩ => ⟨p.layout, hl, fun a => ?_, ?_, ?_⟩
  · rw [Image.contains_ofBytes _ (by omega), hbytes, UInt32.lt_iff_toNat_lt, hnat]
  · rw [Image.endAddress_ofBytes _ (by omega), hbytes]
    rfl
  · rw [Image.size_ofBytes _ (by omega), hbytes, hnat]

/-- the second reading stores the bytes of a line where the first one was when it came to it, and
nothing was there before -/
theorem emit_line (set : InstructionSet) (symbols : Symbols) (before after : List Line)
    (line : Line) (l : Layout) (p : Program) (bss : List (List UInt8))
    (hp : p.Reads set (before ++ line :: after)) (henc : p.Encodes symbols bss)
    (hsize : p.size < 2 ^ 32) (hl : layOut set before = .ok l) :
    ∃ e bs, before.foldlM (Emission.addLine set symbols) {} = .ok e ∧ e.next = l.size ∧
      (Statement.read set line.body).bind (Statement.bytes symbols) = .ok bs ∧
      ∀ i (hi : i < bs.length), e.image.get? (l.size + UInt32.ofNat i) = none ∧
        (Image.ofBytes bss.flatten).get? (l.size + UInt32.ofNat i) = some bs[i] := by
  obtain ⟨p₁, p₂, rfl, hp₁, hp₂⟩ := hp.of_append
  obtain ⟨bss₁, bss₂, rfl, henc₁, henc₂⟩ := henc.of_append
  obtain ⟨p₁', hp₁', -, rfl⟩ := (layOut_eq_ok_iff set before l).mp hl
  obtain rfl := hp₁'.unique hp₁
  have hlen₁ := henc₁.length_flatten
  have hlen := henc.length_flatten
  cases henc₂ with
  | nil => exact absurd hp₂.lines (by simp)
  | @cons q bs p₃ bss₃ hq _ =>
    have hline : q.1 = line := (List.cons.inj hp₂.lines).1
    have hs := hp₂.bodies q List.mem_cons_self
    rw [hline] at hs
    refine ⟨bss₁.flatten.foldl Emission.push {}, bs, ?_, ?_, ?_, fun i hi => ?_⟩
    · rw [Emission.foldlM_addLine]
      exact (map_eq_ok_iff _ _ _).mpr
        ⟨bss₁, (mapM_encode_eq_ok_iff _ _ _ _).mpr ⟨p₁', hp₁, henc₁⟩, rfl⟩
    · rw [Image.next_foldl_push, hlen₁]
      exact UInt32.zero_add _
    · exact (bind_eq_ok_iff _ _ _).mpr ⟨q.2, hs.read_eq, hq.bytes_eq⟩
    · have hflat : (bss₁ ++ bs :: bss₃).flatten = bss₁.flatten ++ (bs ++ bss₃.flatten) := by
        rw [List.flatten_append, List.flatten_cons]
      have hend : p₁'.size + bs.length ≤ (bss₁ ++ bs :: bss₃).flatten.length := by
        rw [hflat, List.length_append, List.length_append]
        omega
      have haddr : (p₁'.layout.size + UInt32.ofNat i).toNat = p₁'.size + i := by
        show (UInt32.ofNat p₁'.size + UInt32.ofNat i).toNat = p₁'.size + i
        rw [← UInt32.ofNat_add, UInt32.toNat_ofNat_of_lt']
        show p₁'.size + i < 2 ^ 32
        omega
      constructor
      · show (Image.ofBytes bss₁.flatten).get? _ = none
        rw [Image.get?_ofBytes _ (by omega), haddr, List.getElem?_eq_none (by omega)]
      · rw [Image.get?_ofBytes _ (by omega), haddr, hflat, List.getElem?_append_right (by omega),
          List.getElem?_append_left (by omega), hlen₁, Nat.add_sub_cancel_left,
          List.getElem?_eq_getElem hi]

/-- **Both readings count the same bytes.**  If the second reading of a text of less than `2 ^ 31`
bytes succeeds under any table, then the first one succeeds too or finds a duplicate label, the
addresses with a byte are those below its size, and the bytes of every line that it reaches stand
where it was.  So the two never disagree on the size of a program that is assembled. -/
theorem layOut_agrees_emit (set : InstructionSet) (source : Text)
    (hlen : byteLength source < 2 ^ 31) :
    (∀ symbols image, emit set symbols (sourceLines source) = .ok image →
      ((∃ e name, layOut set (sourceLines source) = .error e ∧ e.fault = .duplicateLabel name) ∨
        ∃ l, layOut set (sourceLines source) = .ok l ∧
          (∀ a, image.contains a = true ↔ a < l.size) ∧
          image.endAddress = l.size ∧ image.size = l.size.toNat) ∧
      ∀ before line after l, sourceLines source = before ++ line :: after →
        layOut set before = .ok l →
        ∃ e bs, before.foldlM (Emission.addLine set symbols) {} = .ok e ∧ e.next = l.size ∧
          (Statement.read set line.body).bind (Statement.bytes symbols) = .ok bs ∧
          ∀ i (hi : i < bs.length), e.image.get? (l.size + UInt32.ofNat i) = none ∧
            image.get? (l.size + UInt32.ofNat i) = some bs[i]) ∧
    ∀ l image, layOut set (sourceLines source) = .ok l →
      emit set l.symbols (sourceLines source) = .ok image → image.endAddress = l.size := by
  refine ⟨fun symbols image h => ⟨layOut_of_emit set symbols source hlen image h, ?_⟩, ?_⟩
  · intro before line after l hlines hl
    obtain ⟨p, bss, hp, henc, rfl⟩ := (emit_eq_ok_iff set symbols _ image).mp h
    have hsize := hp.size_lt hlen
    rw [hlines] at hp
    exact emit_line set symbols before after line l p bss hp henc hsize hl
  · intro l image hl himage
    rcases layOut_of_emit set l.symbols source hlen image himage with
      ⟨e, _, he, _⟩ | ⟨l', hl', -, hend, -⟩
    · exact absurd (hl.symm.trans he) (by simp)
    · rw [hend, Except.ok.inj (hl.symm.trans hl')]

/-- a table that is not the one of the first reading: `a` is at 0, the table says 9 -/
theorem layOut_agrees_emit_other_table :
    byteLength "a: JMP a\nDB 1, 2".toList < 2 ^ 31 ∧
      emit .standard (.ofList [("a".toList, 9)]) (sourceLines "a: JMP a\nDB 1, 2".toList) =
        .ok (.ofBytes [4, 9, 1, 2]) ∧
      ∃ l, layOut .standard (sourceLines "a: JMP a\nDB 1, 2".toList) = .ok l ∧
        (Image.ofBytes [4, 9, 1, 2]).endAddress = l.size := by
  have hemit : emit .standard (.ofList [("a".toList, 9)])
      (sourceLines "a: JMP a\nDB 1, 2".toList) = .ok (.ofBytes [4, 9, 1, 2]) := by decide +kernel
  have hl : layOut .standard (sourceLines "a: JMP a\nDB 1, 2".toList) =
      .ok ⟨.ofList [("a".toList, 0)], 4⟩ := by decide +kernel
  refine ⟨by decide, hemit, ?_⟩
  obtain ⟨⟨e, _, he, _⟩ | ⟨l, hok, -, hend, -⟩, -⟩ :=
    (layOut_agrees_emit .standard _ (by decide)).1 _ _ hemit
  · exact absurd (hl.symm.trans he) (by simp)
  · exact ⟨l, hok, hend⟩

end TinyCpu

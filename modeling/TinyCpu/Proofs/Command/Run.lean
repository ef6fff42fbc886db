import TinyCpu.Command.Basic
import TinyCpu.Proofs.Disk.Siblings
import TinyCpu.Proofs.Microcode.Outputs

/-!
# Runs of the commands

What a run of a command leaves: its exit code, its printed text and the disk.

* `Command.exitOn`       the run of a command line on a disk;
* `Command.Prepares`     what a command makes of its input, before it writes anything;
* `Command.run_cases`    a run stops there, or saves what it has prepared.
-/

namespace TinyCpu
open Text

/-! ## Runs on a disk -/

theorem run_bind_of_run {σ α β : Type} {x : StateM σ α} {s : σ} {a : α} {s' : σ}
    (h : x.run s = (a, s')) (f : α → StateM σ β) : (x >>= f).run s = (f a).run s' := by
  rw [StateT.run_bind, h]
  rfl

theorem run_readText (p : Text) (d : Disk) :
    (readText p : StateM Disk (Except ReadError Text)).run d =
      (match d.read p with
        | .error e => .error (.os e)
        | .ok bytes => match ofUtf8? bytes with
          | some t => .ok t
          | none => .error .notText, d) := by
  unfold readText
  rw [StateT.run_bind]
  show (match d.read p with
    | .error e => (pure (.error (.os e)) : StateM Disk (Except ReadError Text))
    | .ok bytes => match ofUtf8? bytes with
      | some t => pure (.ok t)
      | none => pure (.error .notText)).run d = _
  cases d.read p with
  | error e => rfl
  | ok bytes =>
    dsimp only
    cases ofUtf8? bytes <;> rfl

def Disk.HoldsText (d : Disk) (p t : Text) : Prop :=
  ∃ contents, d.stat? p = some (.file contents) ∧ ofUtf8? contents = some t

theorem Disk.HoldsText.unique {d : Disk} {p t t' : Text} (h : d.HoldsText p t)
    (h' : d.HoldsText p t') : t = t' := by
  obtain ⟨contents, hfile, htext⟩ := h
  obtain ⟨contents', hfile', htext'⟩ := h'
  obtain rfl : contents = contents' := by simpa using hfile.symm.trans hfile'
  exact Option.some.inj (htext.symm.trans htext')

/-- a file is read as its text, and without one the reading fails; the disk stays as it is -/
theorem readText_cases (p : Text) (d : Disk) :
    (∃ t, d.HoldsText p t ∧
      (readText p : StateM Disk (Except ReadError Text)).run d = (.ok t, d)) ∨
    ((¬ ∃ t, d.HoldsText p t) ∧
      ∃ e, (readText p : StateM Disk (Except ReadError Text)).run d = (.error e, d)) := by
  rw [run_readText]
  cases hread : d.read p with
  | error e =>
    refine .inr ⟨?_, .os e, rfl⟩
    rintro ⟨t, contents, hfile, -⟩
    exact absurd (hread.symm.trans ((Disk.read_eq_ok_iff d p contents).mpr hfile)) (by simp)
  | ok bytes =>
    have hfile := (Disk.read_eq_ok_iff d p bytes).mp hread
    cases htext : ofUtf8? bytes with
    | some t => exact .inl ⟨t, ⟨bytes, hfile, htext⟩, by simp only [htext]⟩
    | none =>
      refine .inr ⟨?_, .notText, by simp only [htext]⟩
      rintro ⟨t, contents, hfile', htext'⟩
      obtain rfl : bytes = contents := by simpa using hfile.symm.trans hfile'
      exact absurd (htext.symm.trans htext') (by simp)

/-! ## What a command prepares -/

namespace Command

def wordBytes : Command → Nat
  | assembler => 1
  | microassembler => 3

/-- the bytes and the image that a command makes of a text -/
inductive Makes : Command → Text → List UInt8 → Image → Prop
  | program (source : Text) (a : Assembly) (h : assemble .standard source = .ok a) :
      Makes .assembler source a.image.dense a.image
  | microcode (t : Text) (records : List Record) (rom : Rom)
      (hrecords : Record.listOfJson t = .ok records) (hrom : Rom.assemble records = .ok rom) :
      Makes .microassembler t rom.binary rom.image

/-- the bytes and the image that a command makes of the text in a file -/
def Prepares (c : Command) (d : Disk) (input : Text) (binary : List UInt8) (image : Image) : Prop :=
  ∃ t, d.HoldsText input t ∧ c.Makes t binary image

def outcomeOn (c : Command) (input : Text) (d : Disk) : Outcome × Disk :=
  (c.run input : StateM Disk Outcome).run d

/-- the run fails, prints nothing and leaves the disk as it is -/
def Stops (c : Command) (input : Text) (d : Disk) : Prop :=
  ∃ o e, c.outcomeOn input d = (o, d) ∧ o.result = .error e ∧ o.printed = []

/-- the run saves the artifacts next to its input, and succeeds exactly if that does -/
def Saves (c : Command) (input : Text) (d : Disk) (a : Artifacts) : Prop :=
  ∃ o, c.outcomeOn input d = (o, (a.saveOn (OutputPaths.forInput input).binary
      (OutputPaths.forInput input).memoryText d).2) ∧
    (o.result = .ok () ↔ (a.saveOn (OutputPaths.forInput input).binary
      (OutputPaths.forInput input).memoryText d).1 = .ok ())

theorem saves_of_run {c : Command} {input : Text} {d : Disk} {log : List Event} {printed : Text}
    {a : Artifacts} {done : Event}
    (hrun : c.outcomeOn input d = (saveOutputs { log, printed } (.ok a)
      (OutputPaths.forInput input) done : StateM Disk Outcome).run d) : c.Saves input d a := by
  unfold saveOutputs at hrun
  dsimp only at hrun
  rw [StateT.run_bind] at hrun
  unfold Saves Artifacts.saveOn
  cases hsave : (a.save (OutputPaths.forInput input).binary (OutputPaths.forInput input).memoryText :
      StateM Disk (Except WriteError Unit)).run d with
  | mk result d' =>
    rw [hsave] at hrun
    rcases result with e | ⟨⟩
    · exact ⟨_, hrun, by simp⟩
    · exact ⟨_, hrun, by simp⟩

theorem exists_render (c : Command) (image : Image) :
    ∃ text, MemoryText.render (8 * c.wordBytes) image = .ok text := by
  cases c with
  | assembler => exact ⟨_, MemoryText.render_mul 1 (by decide) image⟩
  | microassembler => exact ⟨_, MemoryText.render_mul 3 (by decide) image⟩

theorem assembler_cases (input : Text) (d : Disk) :
    ((¬ ∃ binary image, assembler.Prepares d input binary image) ∧ assembler.Stops input d) ∨
    ∃ binary image text, assembler.Prepares d input binary image ∧
      MemoryText.render (8 * assembler.wordBytes) image = .ok text ∧
      assembler.Saves input d ⟨binary, text⟩ := by
  have hrun : assembler.outcomeOn input d = (assembleFile input : StateM Disk Outcome).run d := rfl
  unfold assembleFile at hrun
  rcases readText_cases input d with ⟨source, hsource, hread⟩ | ⟨hno, e, hread⟩
  · rw [run_bind_of_run hread] at hrun
    dsimp only at hrun
    cases hasm : assemble .standard source with
    | error e =>
      rw [hasm] at hrun
      refine .inl ⟨?_, _, _, hrun, rfl, rfl⟩
      rintro ⟨binary, image, t, ht, hmakes⟩
      cases hmakes with
      | program _ a ha =>
        obtain rfl := hsource.unique ht
        exact absurd (hasm.symm.trans ha) (by simp)
    | ok a =>
      obtain ⟨text, htext⟩ := exists_render assembler a.image
      have hartifacts : Artifacts.ofImage MemoryText.programBits a.image =
          .ok ⟨a.image.dense, text⟩ := by
        unfold Artifacts.ofImage
        rw [show MemoryText.render MemoryText.programBits a.image = .ok text from htext]
        rfl
      rw [hasm] at hrun
      dsimp only at hrun
      rw [hartifacts] at hrun
      exact .inr ⟨_, _, text, ⟨source, hsource, .program source a hasm⟩, htext, saves_of_run hrun⟩
  · rw [run_bind_of_run hread] at hrun
    refine .inl ⟨?_, _, _, hrun, rfl, rfl⟩
    rintro ⟨binary, image, t, ht, -⟩
    exact hno ⟨t, ht⟩

theorem loadMicrocode_cases (input : Text) (d : Disk) :
    (∃ t records, d.HoldsText input t ∧ Record.listOfJson t = .ok records ∧
      (loadMicrocode input : StateM Disk (Except LoadError (List Record))).run d =
        (.ok records, d)) ∨
    ((∀ t, d.HoldsText input t → ∀ records, Record.listOfJson t ≠ .ok records) ∧
      ∃ e, (loadMicrocode input : StateM Disk (Except LoadError (List Record))).run d =
        (.error e, d)) := by
  unfold loadMicrocode
  rcases readText_cases input d with ⟨t, ht, hread⟩ | ⟨hno, e, hread⟩
  · rw [run_bind_of_run hread]
    cases hrecords : Record.listOfJson t with
    | ok records => exact .inl ⟨t, records, ht, hrecords, by simp only [hrecords]; rfl⟩
    | error fault =>
      refine .inr ⟨?_, _, by simp only [hrecords]; rfl⟩
      intro t' ht' records hok
      obtain rfl := ht.unique ht'
      exact absurd (hrecords.symm.trans hok) (by simp)
  · rw [run_bind_of_run hread]
    refine .inr ⟨fun t ht => absurd ⟨t, ht⟩ hno, ?_⟩
    split
    · exact ⟨_, rfl⟩
    · exact ⟨_, rfl⟩
    · next h => exact absurd h (by simp)

theorem microassembler_cases (input : Text) (d : Disk) :
    ((¬ ∃ binary image, microassembler.Prepares d input binary image) ∧
      microassembler.Stops input d) ∨
    ∃ binary image text, microassembler.Prepares d input binary image ∧
      MemoryText.render (8 * microassembler.wordBytes) image = .ok text ∧
      microassembler.Saves input d ⟨binary, text⟩ := by
  have hrun : microassembler.outcomeOn input d = (packFile input : StateM Disk Outcome).run d := rfl
  unfold packFile at hrun
  rcases loadMicrocode_cases input d with ⟨t, records, ht, hrecords, hload⟩ | ⟨hno, e, hload⟩
  · rw [run_bind_of_run hload] at hrun
    dsimp only at hrun
    cases hrom : Rom.assemble records with
    | error e =>
      rw [hrom] at hrun
      refine .inl ⟨?_, _, _, hrun, rfl, rfl⟩
      rintro ⟨binary, image, t', ht', hmakes⟩
      cases hmakes with
      | microcode _ records' rom hrecords' hrom' =>
        obtain rfl := ht.unique ht'
        obtain rfl := Except.ok.inj (hrecords.symm.trans hrecords')
        exact absurd (hrom.symm.trans hrom') (by simp)
    | ok rom =>
      obtain ⟨text, htext⟩ := exists_render microassembler rom.image
      have hartifacts : rom.artifacts = .ok ⟨rom.binary, text⟩ := by
        unfold Rom.artifacts
        rw [show rom.memoryText = .ok text from htext]
        rfl
      rw [hrom] at hrun
      dsimp only at hrun
      rw [hartifacts] at hrun
      exact .inr ⟨_, _, text, ⟨t, ht, .microcode t records rom hrecords hrom⟩, htext,
        saves_of_run hrun⟩
  · rw [run_bind_of_run hload] at hrun
    refine .inl ⟨?_, _, _, hrun, rfl, rfl⟩
    rintro ⟨binary, image, t, ht, hmakes⟩
    cases hmakes with
    | microcode _ records rom hrecords hrom => exact hno t ht records hrecords

/-- **A run stops before it writes, or saves what it has prepared.** -/
theorem run_cases (c : Command) (input : Text) (d : Disk) :
    ((¬ ∃ binary image, c.Prepares d input binary image) ∧ c.Stops input d) ∨
    ∃ binary image text, c.Prepares d input binary image ∧
      MemoryText.render (8 * c.wordBytes) image = .ok text ∧ c.Saves input d ⟨binary, text⟩ := by
  cases c with
  | assembler => exact assembler_cases input d
  | microassembler => exact microassembler_cases input d

/-! ## Exit codes -/

def exitOn (c : Command) (level : Option Level) (arguments : List Text) (d : Disk) : Exit × Disk :=
  (runCommand c level arguments : StateM Disk Exit).run d

theorem exitOn_eq {c : Command} {arguments : List Text} {input : Text}
    (h : inputArgument c.defaultInput arguments = .ok input) (level : Option Level) (d : Disk) :
    c.exitOn level arguments d =
      ((c.outcomeOn input d).1.exit level, (c.outcomeOn input d).2) := by
  unfold exitOn runCommand
  rw [h]
  rfl

theorem code_exit_eq_zero_iff (level : Option Level) (o : Outcome) :
    (o.exit level).code = 0 ↔ o.result = .ok () := by
  unfold Outcome.exit
  split
  · next h => simp [h]
  · next h => simp [h]

theorem code_exit_of_error {level : Option Level} {o : Outcome} {e : CommandError}
    (h : o.result = .error e) : (o.exit level).code = 1 := by
  unfold Outcome.exit
  rw [h]

theorem printed_exit (level : Option Level) (o : Outcome) :
    (o.exit level).printed = o.printed := by
  unfold Outcome.exit
  split <;> rfl

/-! ## The memory text of a run -/

/-- a memory text next to bytes: read back, it is a front part of them that has every byte of the
image, and a lone zero for an image without bytes -/
structure Shows (c : Command) (image : Image) (binary : List UInt8) (text : Text) : Prop where
  empty : image.entries = [] → text = MemoryText.header ++ "\n0\n".toList
  front : image.entries ≠ [] → ∃ bytes, MemoryText.decode? c.wordBytes text = some bytes ∧
    bytes <+: binary ∧ ∀ a, image.contains a = true → a.toNat < bytes.length

theorem wordBytes_pos (c : Command) : 0 < c.wordBytes := by
  cases c <;> decide

theorem wordBytes_le (c : Command) : c.wordBytes ≤ 8 := by
  cases c <;> decide

/-- the image fills whole words, and the bytes begin with it -/
theorem Makes.dense {c : Command} {t : Text} {binary : List UInt8} {image : Image}
    (h : c.Makes t binary image) : c.wordBytes ∣ image.dense.length ∧ image.dense <+: binary := by
  cases h with
  | program source a _ => exact ⟨Nat.one_dvd _, List.prefix_refl _⟩
  | microcode t records rom _ _ =>
    obtain ⟨n, hheight, hlength⟩ := rom.exists_height
    exact ⟨⟨n, hlength⟩, _, rom.dense_append_zeros n hheight hlength⟩

theorem Makes.shows {c : Command} {t : Text} {binary : List UInt8} {image : Image} {text : Text}
    (h : c.Makes t binary image) (htext : MemoryText.render (8 * c.wordBytes) image = .ok text) :
    c.Shows image binary text := by
  obtain ⟨hdvd, hprefix⟩ := h.dense
  constructor
  · intro hempty
    have hdense : image.dense = [] := by
      unfold Image.dense
      rw [hempty]
      rfl
    rw [MemoryText.render_eq_of_dvd _ c.wordBytes_pos c.wordBytes_le image hdvd, hdense,
      MemoryText.touched_nil _ c.wordBytes_pos] at htext
    rw [← Except.ok.inj htext, List.append_assoc]
    rfl
  · intro hne
    have hdense : image.dense ≠ [] := by
      obtain ⟨e, he⟩ := List.exists_mem_of_ne_nil _ hne
      have hkey := (SortedMap.contains_iff image e.1).mpr (List.mem_map_of_mem he)
      have hlt := image.toNat_lt_length_dense e.1 hkey
      exact List.length_pos_iff.mp (Nat.zero_lt_of_lt hlt)
    exact ⟨image.dense, MemoryText.decode?_render c.wordBytes_pos c.wordBytes_le hdvd hdense htext,
      hprefix, image.toNat_lt_length_dense⟩

theorem Makes.length_binary {t : Text} {binary : List UInt8} {image : Image}
    (h : microassembler.Makes t binary image) : binary.length = 192 := by
  cases h with
  | microcode t records rom _ _ => exact rom.length_binary

/-! ## All or nothing -/

/-- **A command writes nothing or both of its outputs.**  If its input cannot be read, understood or
assembled, it ends with code 1, prints nothing and leaves the disk as it is.  If it ends with code
0, the binary holds what the input makes, and the memory text read back is a front part of that
with every assigned byte; no staged file is left and nothing else has changed.  With an input that
can be assembled, the code depends on nothing but the room for the four files, so no warning makes
it fail. -/
theorem exit_all_or_nothing (c : Command) (level : Option Level) (arguments : List Text)
    (input : Text) (d : Disk) (hinput : inputArgument c.defaultInput arguments = .ok input) :
    ((¬ ∃ binary image, c.Prepares d input binary image) →
      (c.exitOn level arguments d).1.code = 1 ∧ (c.exitOn level arguments d).1.printed = [] ∧
        (c.exitOn level arguments d).2 = d) ∧
    ((c.exitOn level arguments d).1.code = 0 → ∃ binary image text,
      c.Prepares d input binary image ∧ (c = .microassembler → binary.length = 192) ∧
      Artifacts.Saved ⟨binary, text⟩ (OutputPaths.forInput input).binary
        (OutputPaths.forInput input).memoryText d (c.exitOn level arguments d).2 ∧
      c.Shows image binary text) ∧
    ∀ binary image, c.Prepares d input binary image →
      ((c.exitOn level arguments d).1.code = 0 ↔
        ∀ x ∈ OutputPaths.savePaths input, (d.room? x).isSome) := by
  rw [exitOn_eq hinput]
  dsimp only
  rw [code_exit_eq_zero_iff, printed_exit]
  rcases run_cases c input d with ⟨hno, o, e, hrun, hresult, hprinted⟩ |
    ⟨binary, image, text, hprepares, htext, o, hrun, hresult⟩
  · rw [hrun]
    refine ⟨fun _ => ⟨code_exit_of_error hresult, hprinted, rfl⟩, ?_, ?_⟩
    · intro hok
      exact absurd (hok.symm.trans hresult) (by simp)
    · intro binary image hprepares
      exact absurd ⟨binary, image, hprepares⟩ hno
  · have hfront := hprepares
    obtain ⟨t, ⟨contents, hfile, -⟩, hmakes⟩ := hfront
    rw [hrun]
    refine ⟨fun hno => absurd ⟨binary, image, hprepares⟩ hno, ?_⟩
    rcases Artifacts.saveOn_forInput ⟨binary, text⟩ hfile with
      ⟨hrooms, d', hsave, hsaved⟩ | ⟨hrooms, e, d', hsave⟩
    · rw [hsave] at hresult ⊢
      have hok := hresult.mpr rfl
      refine ⟨fun _ => ⟨binary, image, text, hprepares, ?_, hsaved, hmakes.shows htext⟩,
        fun _ _ _ => iff_of_true hok hrooms⟩
      rintro rfl
      exact hmakes.length_binary
    · rw [hsave] at hresult ⊢
      have hfail : o.result ≠ .ok () := fun hok => absurd (hresult.mp hok) (by simp)
      exact ⟨fun hok => absurd hok hfail, fun _ _ _ => iff_of_false hfail hrooms⟩

/-- a program with the outputs of an earlier run of it, and microcode that writes a register of an
unknown name -/
def rebuilt : Disk :=
  (((Disk.put {} ["a.asm".toList] (toUtf8 "JMP end\nend: HALT".toList)).put
    ["a.bin".toList] [1]).put ["a.bin.part".toList] [7, 7]).put ["u.json".toList] (toUtf8
      ("[\x7b\"address\": \"0x02\", \"bBus\": \"PC\", ".toList ++
        "\"writeTo\": [\"MAR\", \"X\"], \"next\": \"0x05\"\x7d]".toList))

theorem exit_all_or_nothing_rebuilt :
    (inputArgument assembler.defaultInput ["./a.asm".toList] = .ok "./a.asm".toList ∧
      (assembler.exitOn none ["./a.asm".toList] rebuilt).1.code = 0 ∧
      ∃ image text, assembler.Prepares rebuilt "./a.asm".toList [4, 2, 12] image ∧
        toUtf8 text = toUtf8 "v2.0 raw\n4 2 c\n".toList ∧
        Artifacts.Saved ⟨[4, 2, 12], text⟩ "./a.bin".toList "./a.logisimimg".toList rebuilt
          (assembler.exitOn none ["./a.asm".toList] rebuilt).2) ∧
    inputArgument microassembler.defaultInput ["u.json".toList] = .ok "u.json".toList ∧
      (microassembler.exitOn none ["u.json".toList] rebuilt).1.code = 0 ∧
      ∃ binary image text, microassembler.Prepares rebuilt "u.json".toList binary image ∧
        binary = List.replicate 6 0 ++ [0x15, 6, 1] ++ List.replicate 183 0 ∧
        toUtf8 text = toUtf8 "v2.0 raw\n0 0 150601\n".toList ∧
        Artifacts.Saved ⟨binary, text⟩ "u.bin".toList "u.logisimimg".toList rebuilt
          (microassembler.exitOn none ["u.json".toList] rebuilt).2 := by
  have hprogram : inputArgument assembler.defaultInput ["./a.asm".toList] =
      .ok "./a.asm".toList := by decide
  have hmicrocode : inputArgument microassembler.defaultInput ["u.json".toList] =
      .ok "u.json".toList := by decide
  have hzero : (assembler.exitOn none ["./a.asm".toList] rebuilt).1.code = 0 := by decide +kernel
  have hzero' : (microassembler.exitOn none ["u.json".toList] rebuilt).1.code = 0 := by
    decide +kernel
  obtain ⟨binary, image, text, hprepares, -, hsaved, -⟩ :=
    (exit_all_or_nothing assembler none _ _ rebuilt hprogram).2.1 hzero
  obtain ⟨binary', image', text', hprepares', -, hsaved', -⟩ :=
    (exit_all_or_nothing microassembler none _ _ rebuilt hmicrocode).2.1 hzero'
  have hsaved : Artifacts.Saved ⟨binary, text⟩ "./a.bin".toList "./a.logisimimg".toList rebuilt
      (assembler.exitOn none ["./a.asm".toList] rebuilt).2 := hsaved
  have hsaved' : Artifacts.Saved ⟨binary', text'⟩ "u.bin".toList "u.logisimimg".toList rebuilt
      (microassembler.exitOn none ["u.json".toList] rebuilt).2 := hsaved'
  -- the files themselves, by running the commands
  have hbinary : (assembler.exitOn none ["./a.asm".toList] rebuilt).2.stat? "./a.bin".toList =
      some (.file [4, 2, 12]) := by decide +kernel
  have htext : (assembler.exitOn none ["./a.asm".toList] rebuilt).2.stat?
      "./a.logisimimg".toList = some (.file (toUtf8 "v2.0 raw\n4 2 c\n".toList)) := by
    decide +kernel
  have hbinary' : (microassembler.exitOn none ["u.json".toList] rebuilt).2.stat? "u.bin".toList =
      some (.file (List.replicate 6 0 ++ [0x15, 6, 1] ++ List.replicate 183 0)) := by
    decide +kernel
  have htext' : (microassembler.exitOn none ["u.json".toList] rebuilt).2.stat?
      "u.logisimimg".toList = some (.file (toUtf8 "v2.0 raw\n0 0 150601\n".toList)) := by
    decide +kernel
  obtain rfl := Entry.file.inj (Option.some.inj (hsaved.binary.symm.trans hbinary))
  refine ⟨⟨hprogram, hzero, image, text, hprepares, ?_, hsaved⟩, hmicrocode, hzero', binary',
    image', text', hprepares', ?_, ?_, hsaved'⟩
  · exact Entry.file.inj (Option.some.inj (hsaved.text.symm.trans htext))
  · exact Entry.file.inj (Option.some.inj (hsaved'.binary.symm.trans hbinary'))
  · exact Entry.file.inj (Option.some.inj (hsaved'.text.symm.trans htext'))

end Command
end TinyCpu

import TinyCpu.Proofs.Command.Run

/-!
# What a run leaves of its input

The outputs of a command stand next to its input, so they can be the input: a file `a.bin` is the
binary of itself.

* `Command.exit_overwrites_input`   a run that replaces its input;
* `Command.exit_keeps_input`        all other inputs are kept, and so is this one if the run fails
                                    before its last step;
* `Command.exit_loses_input`        a run that fails at its last step loses this one.
-/

namespace TinyCpu.Command
open Text

/-- a program under the name of its own binary -/
def ownBinary : Disk := Disk.put {} ["a.bin".toList] (toUtf8 "HALT".toList)

/-- a run succeeds and its input is gone: the binary has taken its place -/
theorem exit_overwrites_input :
    ownBinary.stat? "a.bin".toList = some (.file (toUtf8 "HALT".toList)) ∧
      (assembler.exitOn none ["a.bin".toList] ownBinary).1.code = 0 ∧
      (assembler.exitOn none ["a.bin".toList] ownBinary).2.stat? "a.bin".toList =
        some (.file [12]) ∧
      toUtf8 "HALT".toList ≠ [12] := by
  decide +kernel

/-- **A run keeps its input, unless that is an output of its own.**  An input with another path than
both outputs is never changed, whatever the exit code.  An input that is an output is kept by a run
that fails, as far as the save has not come to its last step with the input replaced already.  A run
that succeeds leaves the output there. -/
theorem exit_keeps_input (c : Command) (level : Option Level) (arguments : List Text)
    (input : Text) (d : Disk) (contents : List UInt8)
    (hinput : inputArgument c.defaultInput arguments = .ok input)
    (hfile : d.stat? input = some (.file contents)) :
    (input ≠ (OutputPaths.forInput input).binary →
      input ≠ (OutputPaths.forInput input).memoryText →
      (c.exitOn level arguments d).2.stat? input = some (.file contents)) ∧
    ((c.exitOn level arguments d).1.code ≠ 0 →
      (input = (OutputPaths.forInput input).binary →
        ¬ Artifacts.Overwrites (OutputPaths.forInput input).binary
          (OutputPaths.forInput input).memoryText d) →
      (c.exitOn level arguments d).2.stat? input = some (.file contents)) ∧
    ((c.exitOn level arguments d).1.code = 0 → ∃ binary image text,
      c.Prepares d input binary image ∧
      MemoryText.render (8 * c.wordBytes) image = .ok text ∧
      (input = (OutputPaths.forInput input).binary →
        (c.exitOn level arguments d).2.stat? input = some (.file binary)) ∧
      (input = (OutputPaths.forInput input).memoryText →
        (c.exitOn level arguments d).2.stat? input = some (.file (toUtf8 text)))) := by
  rw [exitOn_eq hinput]
  dsimp only
  rw [ne_eq (Exit.code _), code_exit_eq_zero_iff]
  rcases run_cases c input d with ⟨-, o, e, hrun, hresult, -⟩ |
    ⟨binary, image, text, hprepares, htext, o, hrun, hresult⟩
  · rw [hrun]
    refine ⟨fun _ _ => hfile, fun _ _ => hfile, fun hok => ?_⟩
    exact absurd (hok.symm.trans hresult) (by simp)
  · rw [hrun]
    rcases Artifacts.saveOn_forInput ⟨binary, text⟩ hfile with
      ⟨hrooms, d', hsave, hsaved⟩ | ⟨-, e, d', hsave⟩
    · rw [hsave] at hresult ⊢
      refine ⟨fun hbinary hmemory => ?_, fun hfail => absurd (hresult.mpr rfl) hfail,
        fun _ => ⟨binary, image, text, hprepares, htext, fun heq => ?_, fun heq => ?_⟩⟩
      · rw [hsaved.stat?_input hfile hrooms hbinary hmemory, hfile]
      · exact (congrArg d'.stat? heq).trans hsaved.binary
      · exact (congrArg d'.stat? heq).trans hsaved.text
    · rw [hsave] at hresult ⊢
      have hkeep := Artifacts.stat?_input_of_error ⟨binary, text⟩ hfile hsave
      refine ⟨fun hbinary _ => ?_, fun _ hover => (hkeep hover).trans hfile, fun hok => ?_⟩
      · exact (hkeep fun heq => absurd heq hbinary).trans hfile
      · exact absurd (hresult.mp hok) (by simp)

/-- a program under another name than its outputs, and one with an error under the name of its own
binary -/
def twoInputs : Disk :=
  (Disk.put {} ["a.asm".toList] (toUtf8 "HALT".toList)).put ["b.bin".toList]
    (toUtf8 "HALT now".toList)

theorem exit_keeps_input_two :
    (inputArgument assembler.defaultInput ["a.asm".toList] = .ok "a.asm".toList ∧
      (assembler.exitOn none ["a.asm".toList] twoInputs).1.code = 0 ∧
      (assembler.exitOn none ["a.asm".toList] twoInputs).2.stat? "a.asm".toList =
        some (.file (toUtf8 "HALT".toList))) ∧
    inputArgument assembler.defaultInput ["b.bin".toList] = .ok "b.bin".toList ∧
      (assembler.exitOn none ["b.bin".toList] twoInputs).1.code ≠ 0 ∧
      (assembler.exitOn none ["b.bin".toList] twoInputs).2.stat? "b.bin".toList =
        some (.file (toUtf8 "HALT now".toList)) := by
  have hgood : inputArgument assembler.defaultInput ["a.asm".toList] = .ok "a.asm".toList := by
    decide
  have hbad : inputArgument assembler.defaultInput ["b.bin".toList] = .ok "b.bin".toList := by
    decide
  have hcode : (assembler.exitOn none ["b.bin".toList] twoInputs).1.code ≠ 0 := by decide +kernel
  obtain ⟨hkept, -⟩ := exit_keeps_input assembler none _ _ twoInputs
    (toUtf8 "HALT".toList) hgood (by decide)
  obtain ⟨-, hfailed, -⟩ := exit_keeps_input assembler none _ _ twoInputs
    (toUtf8 "HALT now".toList) hbad (by decide)
  refine ⟨⟨hgood, by decide +kernel, hkept (by decide) (by decide)⟩, hbad, hcode,
    hfailed hcode fun _ hover => ?_⟩
  exact absurd hover.2.2 (by decide)

/-- **A run can lose its input.**  Where the text is the only output without room, the binary takes
the place of an input of its own name before the run fails, and is then removed. -/
theorem exit_loses_input (c : Command) (level : Option Level) (arguments : List Text)
    (input : Text) (d : Disk) (hinput : inputArgument c.defaultInput arguments = .ok input)
    (hbinary : input = (OutputPaths.forInput input).binary)
    (hover : Artifacts.Overwrites (OutputPaths.forInput input).binary
      (OutputPaths.forInput input).memoryText d)
    (hprepares : ∃ binary image, c.Prepares d input binary image) :
    (c.exitOn level arguments d).1.code = 1 ∧
      (c.exitOn level arguments d).2.stat? input = none := by
  rw [exitOn_eq hinput]
  rcases run_cases c input d with ⟨hno, -⟩ | ⟨binary, image, text, -, -, o, hrun, hresult⟩
  · exact absurd hprepares hno
  · obtain ⟨e, d', hsave, hgone⟩ :=
      Artifacts.stat?_input_of_overwrites ⟨binary, text⟩ hbinary hover
    rw [hsave] at hrun hresult
    rw [hrun]
    refine ⟨?_, hgone⟩
    cases hend : o.result with
    | error fault => exact code_exit_of_error hend
    | ok => exact absurd (hresult.mp hend) (by simp)

-- a program under the name of its own binary, and a directory at the path of the text
example : (assembler.exitOn none ["a.bin".toList]
    ((Disk.put {} ["a.bin".toList] (toUtf8 "HALT".toList)).makeDirectories
      ["a.logisimimg".toList])).2.stat? "a.bin".toList = none := by
  decide +kernel

end TinyCpu.Command

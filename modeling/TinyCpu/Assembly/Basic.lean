import TinyCpu.Assembly.Statement
import TinyCpu.Image

/-!
# Assembly

The lines of a program are read twice.  The first reading gives every label its address, which is
the size of all that stands before it; the second one stores the bytes.  Both read a line as the
same statement, so the addresses of the first are those of the second.

* `layOut`     the labels and the size of a program;
* `emit`       the image of a program, given the addresses of the labels;
* `assemble`   both.
-/

namespace TinyCpu

/-! ## Addresses -/

/-- the labels met so far and the address of the next byte -/
structure Layout where
  symbols : Symbols := ∅
  size : UInt32 := 0
  deriving DecidableEq

namespace Layout

/-- a label at the address of the next byte -/
def bind (l : Layout) : Option Text → Except LineFault Layout
  | none => .ok l
  | some name => (l.symbols.define name l.size).map fun symbols => { l with symbols }

def reserve (set : InstructionSet) (l : Layout) (body : Text) : Except LineFault Layout :=
  (Statement.read set body).map fun s => { l with size := l.size + s.size }

/-- one more line: its label is bound before its body is read -/
def addLine (set : InstructionSet) (l : Layout) (line : Line) : Except LineError Layout :=
  line.pin ((l.bind line.label).bind fun l => l.reserve set line.body)

end Layout

def layOut (set : InstructionSet) (source : List Line) : Except LineError Layout :=
  source.foldlM (Layout.addLine set) {}

/-! ## Bytes -/

/-- the bytes stored so far and the address of the next one -/
structure Emission where
  image : Image := ∅
  next : UInt32 := 0
  deriving DecidableEq

namespace Emission

def push (e : Emission) (b : UInt8) : Emission := ⟨e.image.insert e.next b, e.next + 1⟩

def addLine (set : InstructionSet) (symbols : Symbols) (e : Emission) (line : Line) :
    Except LineError Emission :=
  line.pin (((Statement.read set line.body).bind (Statement.bytes symbols)).map fun bs =>
    bs.foldl push e)

end Emission

def emit (set : InstructionSet) (symbols : Symbols) (source : List Line) :
    Except LineError Image :=
  (source.foldlM (Emission.addLine set symbols) {}).map Emission.image

/-! ## Programs -/

structure Assembly where
  symbols : Symbols
  image : Image
  deriving DecidableEq

def assemble (set : InstructionSet) (source : Text) : Except LineError Assembly :=
  (layOut set (sourceLines source)).bind fun l =>
    (emit set l.symbols (sourceLines source)).map fun image => ⟨l.symbols, image⟩

end TinyCpu

import Mathlib.Algebra.BigOperators.Group.List.Basic
import Mathlib.Algebra.Order.Ring.Nat
import TinyCpu.Assembly.Basic
import TinyCpu.Proofs.Assembly.Statement
import TinyCpu.Proofs.SortedMap
import TinyCpu.Proofs.Source

/-!
# The layout of a program

The first reading of the lines against its meaning.  A `Program` is the list of the lines with
their statements; its layout is described at once, without a run:

* `Program.Reads`      the program is what the lines say;
* `Program.size`       the sum of the exact sizes;
* `Program.bindings`   the labels in lower case, each with the sum of the sizes before it;
* `Symbols.Locates`    the table that holds these labels and nothing else.

`layOut_eq_ok_iff` says when the run succeeds and what it gives, and `layOut_of_reads` that a
program whose bodies can be read fails on a duplicate label only.
-/

namespace TinyCpu
open Text

/-- a program as read: every line with its statement -/
abbrev Program := List (Line × Statement)

namespace Program

/-- the program is what these lines say -/
structure Reads (set : InstructionSet) (source : List Line) (p : Program) : Prop where
  lines : p.map Prod.fst = source
  bodies : ∀ q ∈ p, Statement.Means set q.1.body q.2

/-- number of bytes of all statements, without a bound -/
def size (p : Program) : Nat := (p.map fun q => q.2.width).sum

/-- the names of the labels, in lower case -/
def labels (p : Program) : List Text := p.filterMap fun q => q.1.label.map lower

theorem size_nil : size [] = 0 := rfl
theorem size_cons (q : Line × Statement) (p : Program) : size (q :: p) = q.2.width + size p := by
  simp [size]
theorem size_append (p q : Program) : size (p ++ q) = size p + size q := by
  simp [size]

theorem labels_cons (q : Line × Statement) (p : Program) :
    labels (q :: p) = (q.1.label.map lower).toList ++ labels p := by
  unfold labels
  cases h : q.1.label <;> simp [h]

/-! ## Readings -/

theorem reads_nil (set : InstructionSet) : Reads set [] [] := ⟨rfl, fun _ h => absurd h (by simp)⟩

theorem Reads.cons {set : InstructionSet} {line : Line} {s : Statement} {source : List Line}
    {p : Program} (hs : Statement.Means set line.body s) (hp : Reads set source p) :
    Reads set (line :: source) ((line, s) :: p) := by
  refine ⟨congrArg (line :: ·) hp.lines, fun q hq => ?_⟩
  rcases List.mem_cons.mp hq with rfl | hq'
  · exact hs
  · exact hp.bodies q hq'

theorem Reads.unique {set : InstructionSet} {source : List Line} {p p' : Program}
    (h : Reads set source p) (h' : Reads set source p') : p = p' := by
  induction p generalizing source p' with
  | nil =>
    have hnil := h'.lines.trans h.lines.symm
    exact (List.map_eq_nil_iff.mp hnil).symm
  | cons q p ih =>
    cases p' with
    | nil => exact absurd (h.lines.trans h'.lines.symm) (by simp)
    | cons q' p' =>
      have hlines := h.lines.trans h'.lines.symm
      rw [List.map_cons, List.map_cons] at hlines
      obtain ⟨hline, hrest⟩ := List.cons.inj hlines
      have hm := h.bodies q List.mem_cons_self
      have hm' := h'.bodies q' List.mem_cons_self
      rw [← hline] at hm'
      have hp : p = p' := ih ⟨rfl, fun r hr => h.bodies r (List.mem_cons_of_mem _ hr)⟩
        ⟨hrest.symm, fun r hr => h'.bodies r (List.mem_cons_of_mem _ hr)⟩
      rw [hp, Prod.ext hline (hm.unique hm')]

theorem Reads.of_append {set : InstructionSet} {before after : List Line} {p : Program}
    (h : Reads set (before ++ after) p) :
    ∃ p₁ p₂, p = p₁ ++ p₂ ∧ Reads set before p₁ ∧ Reads set after p₂ := by
  obtain ⟨p₁, p₂, rfl, h₁, h₂⟩ := List.map_eq_append_iff.mp h.lines
  exact ⟨p₁, p₂, rfl, ⟨h₁, fun q hq => h.bodies q (List.mem_append_left _ hq)⟩,
    ⟨h₂, fun q hq => h.bodies q (List.mem_append_right _ hq)⟩⟩

theorem size_le_bodies (set : InstructionSet) (p : Program)
    (h : ∀ q ∈ p, Statement.Means set q.1.body q.2) :
    p.size ≤ 2 * ((p.map Prod.fst).flatMap Line.body).length := by
  induction p with
  | nil => exact Nat.zero_le _
  | cons q p ih =>
    have hq := (h q List.mem_cons_self).width_le
    have hrest := ih fun r hr => h r (List.mem_cons_of_mem _ hr)
    rw [size_cons, List.map_cons, List.flatMap_cons, List.length_append]
    omega

/-- a program takes at most two bytes for each byte of its text -/
theorem Reads.size_le {set : InstructionSet} {source : Text} {p : Program}
    (h : Reads set (sourceLines source) p) : p.size ≤ 2 * byteLength source := by
  have hp := size_le_bodies set p h.bodies
  have hsub := (bodies_sublist source).length_le
  have hbytes := length_le_byteLength source
  rw [h.lines] at hp
  omega

/-! ## Labels -/

/-- the labels in lower case, each with the address of the line that carries it, the first line
being at `start` -/
def bindings : UInt32 → Program → List (Text × UInt32)
  | _, [] => []
  | start, q :: p =>
    (q.1.label.map fun name => (lower name, start)).toList ++ bindings (start + q.2.size) p

theorem map_fst_bindings (start : UInt32) (p : Program) :
    (bindings start p).map Prod.fst = labels p := by
  induction p generalizing start with
  | nil => rfl
  | cons q p ih =>
    rw [bindings, List.map_append, ih, labels_cons]
    cases q.1.label <;> rfl

/-- a label is bound to the sum of the sizes of all lines before the one that carries it -/
theorem mem_bindings (start : UInt32) (p : Program) (name : Text) (a : UInt32) :
    (name, a) ∈ bindings start p ↔ ∃ (before : Program) (q : Line × Statement) (after : Program)
      (label : Text), p = before ++ q :: after ∧ q.1.label = some label ∧ name = lower label ∧
        a = start + UInt32.ofNat before.size := by
  induction p generalizing start with
  | nil => simp [bindings]
  | cons q p ih =>
    rw [bindings, List.mem_append, ih]
    constructor
    · rintro (h | ⟨before, r, after, label, rfl, hl, hn, ha⟩)
      · rw [Option.mem_toList] at h
        obtain ⟨label, hl, heq⟩ := Option.map_eq_some_iff.mp h
        obtain ⟨rfl, rfl⟩ := Prod.mk.inj heq
        exact ⟨[], q, p, label, rfl, hl, rfl, by simp [size_nil]⟩
      · refine ⟨q :: before, r, after, label, rfl, hl, hn, ?_⟩
        rw [ha, size_cons, UInt32.ofNat_add, q.2.size_eq, UInt32.add_assoc]
    · rintro ⟨before, r, after, label, heq, hl, hn, ha⟩
      cases before with
      | nil =>
        obtain ⟨rfl, rfl⟩ := List.cons.inj heq
        left
        rw [hl, hn, ha, size_nil]
        simp
      | cons r' before =>
        obtain ⟨rfl, rfl⟩ := List.cons.inj heq
        right
        refine ⟨before, r, after, label, rfl, hl, hn, ?_⟩
        rw [ha, size_cons, UInt32.ofNat_add, q.2.size_eq, UInt32.add_assoc]

def layout (p : Program) : Layout := ⟨SortedMap.ofList (bindings 0 p), UInt32.ofNat p.size⟩

theorem contains_symbols_iff (p : Program) (name : Text) :
    p.layout.symbols.contains name = true ↔ name ∈ p.labels := by
  rw [SortedMap.contains_iff, ← p.map_fst_bindings 0,
    ← SortedMap.exists_mem_ofList_iff (p.bindings 0)]
  simp only [List.mem_map, Prod.exists, exists_and_right, exists_eq_right]
  rfl

end Program

/-- the table holds the labels of the program and nothing else, each one in lower case and at the
sum of the sizes of all lines before the one that carries it -/
def Symbols.Locates (symbols : Symbols) (p : Program) : Prop :=
  ∀ name a, symbols.get? name = some a ↔
    ∃ (before : Program) (q : Line × Statement) (after : Program) (label : Text),
      p = before ++ q :: after ∧ q.1.label = some label ∧ name = lower label ∧
        a.toNat = before.size

theorem Symbols.Locates.unique {s s' : Symbols} {p : Program} (h : s.Locates p)
    (h' : s'.Locates p) : s = s' := by
  apply SortedMap.ext_get?
  intro name
  apply Option.ext
  intro a
  rw [h name a, h' name a]

theorem Program.layout_locates (p : Program) (hnd : p.labels.Nodup) (hsize : p.size < 2 ^ 32) :
    p.layout.symbols.Locates p := by
  intro name a
  have hkeys : ((Program.bindings 0 p).map Prod.fst).Nodup := by
    rw [Program.map_fst_bindings]
    exact hnd
  have hget := SortedMap.get?_foldl_insert (Program.bindings 0 p) (SortedMap.empty)
    hkeys (fun k _ => SortedMap.get?_empty k) name a
  show (SortedMap.ofList (Program.bindings 0 p)).get? name = some a ↔ _
  unfold SortedMap.ofList
  rw [hget, SortedMap.get?_empty, Program.mem_bindings]
  constructor
  · rintro (h | ⟨before, q, after, label, rfl, hl, hn, ha⟩)
    · exact absurd h (by simp)
    · refine ⟨before, q, after, label, rfl, hl, hn, ?_⟩
      rw [Program.size_append] at hsize
      rw [ha, UInt32.zero_add, UInt32.toNat_ofNat_of_lt' (by show before.size < 2 ^ 32; omega)]
  · rintro ⟨before, q, after, label, hp, hl, hn, ha⟩
    refine .inr ⟨before, q, after, label, hp, hl, hn, ?_⟩
    rw [UInt32.zero_add, ← ha, UInt32.ofNat_toNat]

/-! ## One line -/

namespace Layout

/-- a line with a new label, or without one, is laid out as its statement says -/
theorem addLine_of_new (set : InstructionSet) (l : Layout) (line : Line) (s : Statement)
    (hs : Statement.Means set line.body s)
    (hnew : ∀ name ∈ (line.label.map lower).toList, l.symbols.get? name = none) :
    addLine set l line = .ok
      ⟨(line.label.map fun name => (lower name, l.size)).toList.foldl
        (fun m p => m.insert p.1 p.2) l.symbols, l.size + s.size⟩ := by
  unfold addLine
  rw [pin_eq_ok_iff]
  cases hl : line.label with
  | none =>
    show (Statement.read set line.body).map _ = _
    rw [hs.read_eq]
    rfl
  | some name =>
    have hfree : l.symbols.contains (lower name) = false := by
      unfold SortedMap.contains
      rw [hnew (lower name) (by simp [hl])]
      rfl
    have hdef : l.symbols.define name l.size = .ok (l.symbols.insert (lower name) l.size) := by
      unfold Symbols.define
      rw [hfree]
      rfl
    show ((l.symbols.define name l.size).map _).bind _ = _
    rw [hdef]
    show (Statement.read set line.body).map _ = _
    rw [hs.read_eq]
    rfl

/-- a label that is already bound is the fault of its line, whatever the body is -/
theorem addLine_of_bound (set : InstructionSet) (l : Layout) (line : Line) (name : Text)
    (hl : line.label = some name) (hbound : l.symbols.get? (lower name) ≠ none) :
    addLine set l line =
      .error ⟨.duplicateLabel (lower name), line.number, trim line.raw⟩ := by
  have htaken : l.symbols.contains (lower name) = true := by
    unfold SortedMap.contains
    exact Option.isSome_iff_ne_none.mpr hbound
  have hdef : l.symbols.define name l.size = .error (.duplicateLabel (lower name)) := by
    unfold Symbols.define
    rw [htaken]
    rfl
  unfold addLine
  rw [hl]
  show line.pin (((l.symbols.define name l.size).map _).bind _) = _
  rw [hdef]
  rfl

theorem means_of_addLine (set : InstructionSet) (l l' : Layout) (line : Line)
    (h : addLine set l line = .ok l') : ∃ s, Statement.Means set line.body s := by
  unfold addLine at h
  rw [pin_eq_ok_iff, bind_eq_ok_iff] at h
  obtain ⟨l₁, _, hres⟩ := h
  obtain ⟨s, hs, _⟩ := (map_eq_ok_iff _ _ _).mp hres
  exact ⟨s, (Statement.read_eq_ok_iff set line.body s).mp hs⟩

/-! ## All lines -/

theorem foldlM_addLine (set : InstructionSet) (p : Program) (l : Layout)
    (hp : ∀ q ∈ p, Statement.Means set q.1.body q.2) (hnd : p.labels.Nodup)
    (hnew : ∀ name ∈ p.labels, l.symbols.get? name = none) :
    (p.map Prod.fst).foldlM (addLine set) l = .ok
      ⟨(p.bindings l.size).foldl (fun m b => m.insert b.1 b.2) l.symbols,
        l.size + UInt32.ofNat p.size⟩ := by
  induction p generalizing l with
  | nil =>
    show Except.ok l = .ok ⟨l.symbols, l.size + 0⟩
    rw [UInt32.add_zero]
  | cons q p ih =>
    rw [Program.labels_cons] at hnd hnew
    have hstep := addLine_of_new set l q.1 q.2 (hp q List.mem_cons_self)
      fun name hn => hnew name (List.mem_append_left _ hn)
    rw [List.map_cons, foldlM_cons_eq, hstep]
    obtain ⟨hnd₁, hnd₂, hdisj⟩ := List.nodup_append.mp hnd
    have hnew' : ∀ name ∈ Program.labels p, ((q.1.label.map fun name => (lower name, l.size)).toList.foldl
        (fun m b => m.insert b.1 b.2) l.symbols).get? name = none := by
      intro name hn
      have hold := hnew name (List.mem_append_right _ hn)
      cases hl : q.1.label with
      | none => exact hold
      | some label =>
        have hne : name ≠ lower label := fun h => hdisj (lower label) (by simp [hl]) name hn h.symm
        exact (SortedMap.get?_insert_of_ne _ _ _ _ hne).trans hold
    refine (ih _ (fun r hr => hp r (List.mem_cons_of_mem _ hr)) hnd₂ hnew').trans ?_
    rw [Program.bindings, List.foldl_append, Program.size_cons, UInt32.ofNat_add,
      ← UInt32.add_assoc, q.2.size_eq]

/-- the run over a program with a label that is not new fails on such a label -/
theorem foldlM_addLine_bound (set : InstructionSet) (p : Program) (l : Layout)
    (hp : ∀ q ∈ p, Statement.Means set q.1.body q.2)
    (hnot : ¬ (p.labels.Nodup ∧ ∀ name ∈ p.labels, l.symbols.get? name = none)) :
    ∃ e name, (p.map Prod.fst).foldlM (addLine set) l = .error e ∧
      e.fault = .duplicateLabel name := by
  induction p generalizing l with
  | nil => exact absurd ⟨List.nodup_nil, fun _ h => absurd h (by simp [Program.labels])⟩ hnot
  | cons q p ih =>
    rw [List.map_cons, foldlM_cons_eq]
    by_cases hq : ∀ name ∈ (q.1.label.map lower).toList, l.symbols.get? name = none
    · rw [addLine_of_new set l q.1 q.2 (hp q List.mem_cons_self) hq]
      -- the first label is new, so if the rest were new after it, all of them would be new before
      refine ih _ (fun r hr => hp r (List.mem_cons_of_mem _ hr)) fun ⟨hnd, hnew⟩ => hnot ?_
      rw [Program.labels_cons]
      cases hl : q.1.label with
      | none =>
        rw [hl] at hnew
        exact ⟨hnd, hnew⟩
      | some label =>
        rw [hl] at hnew hq
        have hfree : lower label ∉ Program.labels p := by
          intro hmem
          have hget := hnew (lower label) hmem
          rw [show Option.toList (Option.map (fun name => (lower name, l.size)) (some label))
            = [(lower label, l.size)] from rfl, List.foldl_cons, List.foldl_nil,
            SortedMap.get?_insert_self] at hget
          exact absurd hget (by simp)
        refine ⟨List.nodup_cons.mpr ⟨hfree, hnd⟩, fun name hn => ?_⟩
        rcases List.mem_cons.mp hn with rfl | hn'
        · exact hq _ (by simp)
        · have hne : name ≠ lower label := fun h => hfree (h ▸ hn')
          exact (SortedMap.get?_insert_of_ne _ _ _ _ hne).symm.trans (hnew name hn')
    · cases hl : q.1.label with
      | none => exact absurd (fun name hn => absurd hn (by simp [hl])) hq
      | some label =>
        have hbound : l.symbols.get? (lower label) ≠ none := fun h => hq (by simpa [hl] using h)
        rw [addLine_of_bound set l q.1 label hl hbound]
        exact ⟨_, _, rfl, rfl⟩

theorem reads_of_foldlM (set : InstructionSet) (source : List Line) (l l' : Layout)
    (h : source.foldlM (addLine set) l = .ok l') : ∃ p, Program.Reads set source p := by
  induction source generalizing l with
  | nil => exact ⟨[], Program.reads_nil set⟩
  | cons line source ih =>
    rw [foldlM_cons_eq, bind_eq_ok_iff] at h
    obtain ⟨l₁, hline, hrest⟩ := h
    obtain ⟨s, hs⟩ := means_of_addLine set l l₁ line hline
    obtain ⟨p, hp⟩ := ih l₁ hrest
    exact ⟨(line, s) :: p, hp.cons hs⟩

end Layout

/-! ## The first reading -/

theorem layOut_of_nodup (set : InstructionSet) (source : List Line) (p : Program)
    (hp : p.Reads set source) (hnd : p.labels.Nodup) : layOut set source = .ok p.layout := by
  unfold layOut
  rw [← hp.lines, Layout.foldlM_addLine set p {} hp.bodies hnd fun name _ => rfl]
  show _ = Except.ok (⟨_, UInt32.ofNat p.size⟩ : Layout)
  rw [show ({} : Layout).size + UInt32.ofNat p.size = UInt32.ofNat p.size from
    UInt32.zero_add _]
  rfl

/-- a program whose bodies can be read fails on a duplicate label only -/
theorem layOut_of_reads (set : InstructionSet) (source : List Line) (p : Program)
    (hp : p.Reads set source) :
    (∃ e name, layOut set source = .error e ∧ e.fault = .duplicateLabel name) ∨
      (p.labels.Nodup ∧ layOut set source = .ok p.layout) := by
  by_cases hnd : p.labels.Nodup
  · exact .inr ⟨hnd, layOut_of_nodup set source p hp hnd⟩
  · left
    unfold layOut
    rw [← hp.lines]
    exact Layout.foldlM_addLine_bound set p {} hp.bodies fun h => hnd h.1

/-- **The first reading succeeds exactly on readable bodies and different labels**, and gives every
label the sum of the sizes before it. -/
theorem layOut_eq_ok_iff (set : InstructionSet) (source : List Line) (l : Layout) :
    layOut set source = .ok l ↔
      ∃ p : Program, p.Reads set source ∧ p.labels.Nodup ∧ l = p.layout := by
  constructor
  · intro h
    obtain ⟨p, hp⟩ := Layout.reads_of_foldlM set source {} l h
    rcases layOut_of_reads set source p hp with ⟨e, _, he, _⟩ | ⟨hnd, hl⟩
    · exact absurd (h.symm.trans he) (by simp)
    · exact ⟨p, hp, hnd, Except.ok.inj (h.symm.trans hl)⟩
  · rintro ⟨p, hp, hnd, rfl⟩
    exact layOut_of_nodup set source p hp hnd

end TinyCpu

import Mathlib.Data.List.Induction
import TinyCpu.Proofs.Assembly.Layout

/-!
# The bytes of a program

The second reading of the lines against its meaning.

* `Line.encode`        the bytes of one line;
* `Image.ofBytes`      the image that holds a list of bytes from address zero on;
* `Program.Encodes`    the bytes of every line of a program.

The run stores the bytes of the lines one after the other (`emit_eq`), so up to the end of the
address space byte `i` is at address `i` and nothing else is stored (`entries_ofBytes`).
-/

namespace TinyCpu
open Text

/-! ## Images of byte lists -/

namespace Image

/-- the image that holds the bytes from address zero on -/
def ofBytes (bs : List UInt8) : Image := (bs.foldl Emission.push {}).image

theorem next_foldl_push (bs : List UInt8) (e : Emission) :
    (bs.foldl Emission.push e).next = e.next + UInt32.ofNat bs.length := by
  induction bs generalizing e with
  | nil => exact (UInt32.add_zero _).symm
  | cons b bs ih =>
    rw [List.foldl_cons, ih, List.length_cons, UInt32.ofNat_add]
    show e.next + 1 + UInt32.ofNat bs.length = e.next + (UInt32.ofNat bs.length + 1)
    rw [UInt32.add_assoc, UInt32.add_comm 1]

theorem ofBytes_concat (bs : List UInt8) (b : UInt8) :
    ofBytes (bs ++ [b]) = (ofBytes bs).insert (UInt32.ofNat bs.length) b := by
  unfold ofBytes
  rw [List.foldl_append]
  show (bs.foldl Emission.push {}).image.insert (bs.foldl Emission.push {}).next b = _
  rw [next_foldl_push]
  show SortedMap.insert _ (0 + UInt32.ofNat bs.length) b = _
  rw [UInt32.zero_add]

/-- byte `i` is at address `i`, and nothing else is stored -/
theorem entries_ofBytes (bs : List UInt8) (h : bs.length ≤ 2 ^ 32) :
    (ofBytes bs).entries = bs.mapIdx fun i b => (UInt32.ofNat i, b) := by
  -- from the end: the address of the last byte is past those of all bytes before it
  induction bs using List.reverseRecOn with
  | nil => rfl
  | append_singleton bs b ih =>
    rw [List.length_append, List.length_singleton] at h
    have ih' := ih (by omega)
    have hlt : ∀ e ∈ (ofBytes bs).entries, compare e.1 (UInt32.ofNat bs.length) = .lt := by
      intro e he
      rw [ih'] at he
      obtain ⟨i, hi, rfl⟩ := List.mem_mapIdx.mp he
      rw [Std.compare_eq_lt, UInt32.lt_iff_toNat_lt,
        UInt32.toNat_ofNat_of_lt' (by show i < 2 ^ 32; omega),
        UInt32.toNat_ofNat_of_lt' (by show bs.length < 2 ^ 32; omega)]
      exact hi
    rw [ofBytes_concat, SortedMap.entries_insert_of_lt _ _ _ hlt, ih', List.mapIdx_concat]

theorem get?_ofBytes (bs : List UInt8) (h : bs.length ≤ 2 ^ 32) (a : UInt32) :
    (ofBytes bs).get? a = bs[a.toNat]? := by
  apply Option.ext
  intro b
  rw [SortedMap.get?_eq_some_iff, entries_ofBytes bs h, List.mem_mapIdx,
    List.getElem?_eq_some_iff]
  constructor
  · rintro ⟨i, hi, heq⟩
    obtain ⟨rfl, rfl⟩ := Prod.mk.inj heq
    have hnat : (UInt32.ofNat i).toNat = i :=
      UInt32.toNat_ofNat_of_lt' (by show i < 2 ^ 32; omega)
    refine ⟨by rw [hnat]; exact hi, ?_⟩
    simp only [hnat]
  · rintro ⟨ha, hb⟩
    refine ⟨a.toNat, ha, ?_⟩
    rw [hb, UInt32.ofNat_toNat]

theorem contains_ofBytes (bs : List UInt8) (h : bs.length ≤ 2 ^ 32) (a : UInt32) :
    (ofBytes bs).contains a = true ↔ a.toNat < bs.length := by
  unfold SortedMap.contains
  rw [get?_ofBytes bs h a]
  simp

theorem size_ofBytes (bs : List UInt8) (h : bs.length ≤ 2 ^ 32) :
    (ofBytes bs).size = bs.length := by
  unfold SortedMap.size
  rw [entries_ofBytes bs h, List.length_mapIdx]

theorem endAddress_ofBytes (bs : List UInt8) (h : bs.length ≤ 2 ^ 32) :
    (ofBytes bs).endAddress = UInt32.ofNat bs.length := by
  unfold endAddress SortedMap.lastKey?
  rw [entries_ofBytes bs h]
  cases bs using List.reverseRecOn with
  | nil => rfl
  | append_singleton bs b =>
    rw [List.mapIdx_concat, List.getLast?_append, List.length_append, UInt32.ofNat_add]
    rfl

end Image

/-! ## Lines -/

def Line.encode (set : InstructionSet) (symbols : Symbols) (line : Line) :
    Except LineError (List UInt8) :=
  line.pin ((Statement.read set line.body).bind (Statement.bytes symbols))

theorem Line.encode_eq_ok_iff (set : InstructionSet) (symbols : Symbols) (line : Line)
    (bs : List UInt8) :
    line.encode set symbols = .ok bs ↔
      ∃ s, Statement.Means set line.body s ∧ s.Encodes symbols bs := by
  unfold Line.encode
  rw [pin_eq_ok_iff, bind_eq_ok_iff]
  simp only [Statement.read_eq_ok_iff, Statement.bytes_eq_ok_iff]

namespace Emission

theorem addLine_eq (set : InstructionSet) (symbols : Symbols) (e : Emission) (line : Line) :
    addLine set symbols e line = (line.encode set symbols).map fun bs => bs.foldl push e := by
  unfold addLine Line.encode
  cases (Statement.read set line.body).bind (Statement.bytes symbols) <;> rfl

theorem foldlM_addLine (set : InstructionSet) (symbols : Symbols) (source : List Line)
    (e : Emission) :
    source.foldlM (addLine set symbols) e =
      (source.mapM (Line.encode set symbols)).map fun bss => bss.flatten.foldl push e := by
  induction source generalizing e with
  | nil => rfl
  | cons line source ih =>
    rw [foldlM_cons_eq, mapM_cons_eq, addLine_eq]
    cases line.encode set symbols with
    | error fault => rfl
    | ok bs =>
      show source.foldlM (addLine set symbols) (bs.foldl push e) = _
      rw [ih]
      show _ = Except.map _ (Except.map _ (source.mapM (Line.encode set symbols)))
      cases source.mapM (Line.encode set symbols) with
      | error fault => rfl
      | ok bss =>
        show Except.ok _ = Except.ok ((bs :: bss).flatten.foldl push e)
        rw [List.flatten_cons, List.foldl_append]

end Emission

theorem emit_eq (set : InstructionSet) (symbols : Symbols) (source : List Line) :
    emit set symbols source =
      (source.mapM (Line.encode set symbols)).map fun bss => Image.ofBytes bss.flatten := by
  unfold emit
  rw [Emission.foldlM_addLine]
  cases source.mapM (Line.encode set symbols) <;> rfl

/-! ## Programs -/

namespace Program

/-- the bytes of every line of the program -/
def Encodes (symbols : Symbols) (p : Program) (bss : List (List UInt8)) : Prop :=
  List.Forall₂ (fun q bs => q.2.Encodes symbols bs) p bss

theorem Encodes.length_flatten {symbols : Symbols} {p : Program} {bss : List (List UInt8)}
    (h : p.Encodes symbols bss) : bss.flatten.length = p.size := by
  induction h with
  | nil => rfl
  | cons hq _ ih => rw [List.flatten_cons, List.length_append, size_cons, hq.length_eq, ih]

theorem Encodes.of_append {symbols : Symbols} {p q : Program} {bss : List (List UInt8)}
    (h : (p ++ q : Program).Encodes symbols bss) :
    ∃ bss₁ bss₂, bss = bss₁ ++ bss₂ ∧ p.Encodes symbols bss₁ ∧ q.Encodes symbols bss₂ := by
  induction p generalizing bss with
  | nil => exact ⟨[], bss, rfl, .nil, h⟩
  | cons r p ih =>
    cases h with
    | cons hr hrest =>
      obtain ⟨bss₁, bss₂, rfl, h₁, h₂⟩ := ih hrest
      exact ⟨_ :: bss₁, bss₂, rfl, .cons hr h₁, h₂⟩

theorem Reads.encodes_iff {set : InstructionSet} {source : List Line} {p : Program}
    (h : p.Reads set source) (symbols : Symbols) :
    (∃ bss, p.Encodes symbols bss) ↔ ∀ q ∈ p, q.2.Resolves symbols := by
  have hmapM : ∀ bss, p.Encodes symbols bss ↔
      p.mapM (fun q => q.2.bytes symbols) = .ok bss := by
    intro bss
    rw [mapM_eq_ok_iff]
    simp only [Statement.bytes_eq_ok_iff]
    rfl
  simp only [hmapM]
  rw [exists_mapM_eq_ok_iff]
  simp only [Statement.bytes_eq_ok_iff]
  exact forall₂_congr fun q hq => (h.bodies q hq).encodes_iff symbols

end Program

theorem mapM_encode_eq_ok_iff (set : InstructionSet) (symbols : Symbols) (source : List Line)
    (bss : List (List UInt8)) :
    source.mapM (Line.encode set symbols) = .ok bss ↔
      ∃ p : Program, p.Reads set source ∧ p.Encodes symbols bss := by
  rw [mapM_eq_ok_iff]
  constructor
  · intro h
    induction h with
    | nil => exact ⟨[], Program.reads_nil set, .nil⟩
    | cons hline _ ih =>
      obtain ⟨s, hs, hbs⟩ := (Line.encode_eq_ok_iff _ _ _ _).mp hline
      obtain ⟨p, hp, hbss⟩ := ih
      exact ⟨_, hp.cons hs, .cons hbs hbss⟩
  · rintro ⟨p, hp, hbss⟩
    rw [← hp.lines]
    have hbodies := hp.bodies
    clear hp
    induction hbss with
    | nil => exact .nil
    | cons hq _ ih =>
      refine .cons ?_ (ih fun r hr => hbodies r (List.mem_cons_of_mem _ hr))
      exact (Line.encode_eq_ok_iff _ _ _ _).mpr ⟨_, hbodies _ List.mem_cons_self, hq⟩

/-- **The second reading succeeds exactly on readable bodies whose operands have bytes**, and
stores the bytes in the order of the lines. -/
theorem emit_eq_ok_iff (set : InstructionSet) (symbols : Symbols) (source : List Line)
    (image : Image) :
    emit set symbols source = .ok image ↔ ∃ (p : Program) (bss : List (List UInt8)),
      p.Reads set source ∧ p.Encodes symbols bss ∧ image = Image.ofBytes bss.flatten := by
  rw [emit_eq, map_eq_ok_iff]
  constructor
  · rintro ⟨bss, hbss, rfl⟩
    obtain ⟨p, hp, henc⟩ := (mapM_encode_eq_ok_iff _ _ _ _).mp hbss
    exact ⟨p, bss, hp, henc, rfl⟩
  · rintro ⟨p, bss, hp, henc, rfl⟩
    exact ⟨bss, (mapM_encode_eq_ok_iff _ _ _ _).mpr ⟨p, hp, henc⟩, rfl⟩

end TinyCpu

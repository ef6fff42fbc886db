import TinyCpu.Proofs.Assembly.Correct
import TinyCpu.Proofs.Text.Lines

/-!
# Programs one after the other

A text of whole lines and a text after it are laid out and encoded one after the other.

* `sourceLines_append`        the lines of both texts; those of the second get other numbers;
* `layOut_moveDown`, `emit_moveDown`   numbers of lines matter to errors only;
* `layOut_append_iff`, `emit_append_iff`   when the lines of both parts succeed together;
* `Layout.Joins`, `Image.Joins`        the second part follows the first one;
* `assembly_of_append`        both readings of two texts, one after the other.
-/

namespace TinyCpu
open Text

/-! ## Moved lines -/

theorem sourceLines_append (s t : Text) (hs : Terminated '\n' s) :
    sourceLines (s ++ t) =
      sourceLines s ++ (sourceLines t).map (Line.moveDown (s.count '\n')) := by
  rw [sourceLines_eq, sourceLines_eq, sourceLines_eq, lines_append s t hs, linesFrom_append,
    length_lines_of_terminated s hs, linesFrom_add]

/-- the error of a line that has `k` lines more above it -/
def LineError.Moved (k : Nat) (e e' : LineError) : Prop := e' = { e with line := e.line + k }

theorem Line.pin_moveDown {α : Type} (k : Nat) (line : Line) (x : Except LineFault α) :
    Agree (LineError.Moved k) Eq (line.pin x) ((line.moveDown k).pin x) := by
  cases x with
  | ok a => exact .ok rfl
  | error fault => exact .error rfl

theorem forall₂_moveDown (k : Nat) (source : List Line) :
    List.Forall₂ (fun line line' => line' = line.moveDown k) source
      (source.map (Line.moveDown k)) :=
  List.forall₂_map_right_iff.mpr (List.forall₂_same.mpr fun _ _ => rfl)

theorem layOut_moveDown (set : InstructionSet) (k : Nat) (source : List Line) :
    Agree (LineError.Moved k) Eq (layOut set source)
      (layOut set (source.map (Line.moveDown k))) := by
  apply Agree.foldlM (forall₂_moveDown k source)
  rintro l line _ rfl
  exact line.pin_moveDown k _

theorem emit_moveDown (set : InstructionSet) (symbols : Symbols) (k : Nat) (source : List Line) :
    Agree (LineError.Moved k) Eq (emit set symbols source)
      (emit set symbols (source.map (Line.moveDown k))) := by
  have hrun : Agree (LineError.Moved k) Eq (source.foldlM (Emission.addLine set symbols) {})
      ((source.map (Line.moveDown k)).foldlM (Emission.addLine set symbols) {}) := by
    apply Agree.foldlM (forall₂_moveDown k source)
    rintro e line _ rfl
    exact line.pin_moveDown k _
  exact hrun.map fun e e' h => congrArg Emission.image h

/-! ## Readings of two parts -/

/-- two lines with one label, up to case -/
def Line.SameLabel (x y : Line) : Prop :=
  ∃ m n, x.label = some m ∧ y.label = some n ∧ lower m = lower n

namespace Program
variable {set : InstructionSet} {ls ls' : List Line} {p q : Program}

theorem labels_append (p q : Program) : labels (p ++ q) = labels p ++ labels q :=
  List.filterMap_append

theorem Reads.append (hp : p.Reads set ls) (hq : q.Reads set ls') :
    Reads set (ls ++ ls') (p ++ q) := by
  refine ⟨?_, fun r hr => ?_⟩
  · rw [List.map_append, hp.lines, hq.lines]
  · rcases List.mem_append.mp hr with h | h
    · exact hp.bodies r h
    · exact hq.bodies r h

theorem Reads.mem_labels_iff (hp : p.Reads set ls) (name : Text) :
    name ∈ p.labels ↔ ∃ line ∈ ls, ∃ m, line.label = some m ∧ lower m = name := by
  rw [← hp.lines]
  simp [labels]

theorem Reads.nodup_append_iff (hp : p.Reads set ls) (hq : q.Reads set ls') :
    (labels (p ++ q)).Nodup ↔
      p.labels.Nodup ∧ q.labels.Nodup ∧ ∀ x ∈ ls, ∀ y ∈ ls', ¬ x.SameLabel y := by
  rw [labels_append, List.nodup_append]
  refine and_congr_right fun _ => and_congr_right fun _ => ?_
  constructor
  · rintro hne x hx y hy ⟨m, n, hm, hn, heq⟩
    exact hne _ ((hp.mem_labels_iff _).mpr ⟨x, hx, m, hm, rfl⟩) _
      ((hq.mem_labels_iff _).mpr ⟨y, hy, n, hn, rfl⟩) heq
  · rintro hnot _ ha _ hb heq
    obtain ⟨x, hx, m, hm, rfl⟩ := (hp.mem_labels_iff _).mp ha
    obtain ⟨y, hy, n, hn, rfl⟩ := (hq.mem_labels_iff _).mp hb
    exact hnot x hx y hy ⟨m, n, hm, hn, heq⟩

end Program

/-! ## Layouts -/

theorem layOut_append_iff (set : InstructionSet) (ls ls' : List Line) :
    (∃ l, layOut set (ls ++ ls') = .ok l) ↔ (∃ l, layOut set ls = .ok l) ∧
      (∃ l, layOut set ls' = .ok l) ∧ ∀ x ∈ ls, ∀ y ∈ ls', ¬ x.SameLabel y := by
  simp only [layOut_eq_ok_iff]
  constructor
  · rintro ⟨_, r, hr, hnd, rfl⟩
    obtain ⟨p, q, rfl, hp, hq⟩ := hr.of_append
    obtain ⟨hnp, hnq, hnot⟩ := (hp.nodup_append_iff hq).mp hnd
    exact ⟨⟨_, p, hp, hnp, rfl⟩, ⟨_, q, hq, hnq, rfl⟩, hnot⟩
  · rintro ⟨⟨_, p, hp, hnp, rfl⟩, ⟨_, q, hq, hnq, rfl⟩, hnot⟩
    exact ⟨_, p ++ q, hp.append hq, (hp.nodup_append_iff hq).mpr ⟨hnp, hnq, hnot⟩, rfl⟩

theorem layOut_append_error (set : InstructionSet) (ls ls' : List Line) (e : LineError)
    (h : layOut set ls = .error e) : layOut set (ls ++ ls') = .error e := by
  unfold layOut at h ⊢
  rw [foldlM_append_eq, h]
  rfl

/-- a layout that follows another one: its labels move up by the size of the first one -/
structure Layout.Joins (l₁ l₂ l : Layout) : Prop where
  size : l.size.toNat = l₁.size.toNat + l₂.size.toNat
  symbols : ∀ name a, l.symbols.get? name = some a ↔ l₁.symbols.get? name = some a ∨
    ∃ a', l₂.symbols.get? name = some a' ∧ a.toNat = l₁.size.toNat + a'.toNat

/-- a line of the program carries the label, and the lines before it take `n` bytes -/
def Program.LabelAt (p : Program) (name : Text) (n : Nat) : Prop :=
  ∃ (before : Program) (q : Line × Statement) (after : Program) (label : Text),
    p = before ++ q :: after ∧ q.1.label = some label ∧ name = lower label ∧ n = before.size

theorem Program.labelAt_append (p q : Program) (name : Text) (n : Nat) :
    LabelAt (p ++ q) name n ↔ p.LabelAt name n ∨ ∃ k, q.LabelAt name k ∧ n = p.size + k := by
  constructor
  · rintro ⟨before, r, after, label, hsplit, hl, hn, rfl⟩
    rcases List.append_eq_append_iff.mp hsplit with ⟨before', rfl, hq⟩ | ⟨after', rfl, hcons⟩
    · exact .inr ⟨size before', ⟨before', r, after, label, hq, hl, hn, rfl⟩, size_append p before'⟩
    · cases after' with
      | nil =>
        refine .inr ⟨0, ⟨[], r, after, label, hcons.symm, hl, hn, rfl⟩, ?_⟩
        rw [List.append_nil, Nat.add_zero]
      | cons r' after' =>
        obtain ⟨rfl, rfl⟩ := List.cons.inj hcons
        exact .inl ⟨before, r, after', label, rfl, hl, hn, rfl⟩
  · rintro (⟨before, r, after, label, rfl, hl, hn, rfl⟩ |
      ⟨k, ⟨before, r, after, label, rfl, hl, hn, rfl⟩, rfl⟩)
    · exact ⟨before, r, after ++ q, label, by simp, hl, hn, rfl⟩
    · exact ⟨p ++ before, r, after, label, by simp, hl, hn, (size_append p before).symm⟩

/-- the labels of two programs, those of the second one past the first one -/
theorem Symbols.Locates.append_iff {s₁ s₂ s : Symbols} {p q : Program} (h₁ : s₁.Locates p)
    (h₂ : s₂.Locates q) (h : s.Locates (p ++ q)) (name : Text) (a : UInt32) :
    s.get? name = some a ↔ s₁.get? name = some a ∨
      ∃ a', s₂.get? name = some a' ∧ a.toNat = p.size + a'.toNat := by
  have hlabels := p.labelAt_append q name a.toNat
  refine ((h name a).trans hlabels).trans (or_congr (h₁ name a).symm ?_)
  constructor
  · rintro ⟨k, hk, ha⟩
    have hlt : k < 2 ^ 32 := by
      have ha' := a.toNat_lt
      omega
    have hnat : (UInt32.ofNat k).toNat = k := UInt32.toNat_ofNat_of_lt' hlt
    exact ⟨UInt32.ofNat k, (h₂ name _).mpr (by rw [hnat]; exact hk), by rw [ha, hnat]⟩
  · rintro ⟨a', ha', ha⟩
    exact ⟨a'.toNat, (h₂ name a').mp ha', ha⟩

theorem layOut_joins (set : InstructionSet) (ls ls' : List Line)
    (hsize : ∀ p : Program, p.Reads set (ls ++ ls') → p.size < 2 ^ 32) (l₁ l₂ l : Layout)
    (h₁ : layOut set ls = .ok l₁) (h₂ : layOut set ls' = .ok l₂)
    (h : layOut set (ls ++ ls') = .ok l) : l₁.Joins l₂ l := by
  obtain ⟨p, hp, hnp, rfl⟩ := (layOut_eq_ok_iff _ _ _).mp h₁
  obtain ⟨q, hq, hnq, rfl⟩ := (layOut_eq_ok_iff _ _ _).mp h₂
  obtain ⟨r, hr, hnr, rfl⟩ := (layOut_eq_ok_iff _ _ _).mp h
  obtain rfl := hr.unique (hp.append hq)
  have hlt := hsize _ hr
  have hsum := Program.size_append p q
  have hnat : p.layout.size.toNat = p.size :=
    UInt32.toNat_ofNat_of_lt' (by show p.size < 2 ^ 32; omega)
  have hnat' : q.layout.size.toNat = q.size :=
    UInt32.toNat_ofNat_of_lt' (by show q.size < 2 ^ 32; omega)
  constructor
  · rw [hnat, hnat', ← hsum]
    exact UInt32.toNat_ofNat_of_lt' hlt
  · rw [hnat]
    exact (p.layout_locates hnp (by omega)).append_iff (q.layout_locates hnq (by omega))
      (Program.layout_locates _ hnr hlt)

/-! ## Images -/

theorem emit_append_iff (set : InstructionSet) (symbols : Symbols) (ls ls' : List Line) :
    (∃ m, emit set symbols (ls ++ ls') = .ok m) ↔
      (∃ m, emit set symbols ls = .ok m) ∧ ∃ m, emit set symbols ls' = .ok m := by
  simp only [emit_eq_ok_iff]
  constructor
  · rintro ⟨_, r, bss, hr, henc, rfl⟩
    obtain ⟨p, q, rfl, hp, hq⟩ := hr.of_append
    obtain ⟨bss₁, bss₂, rfl, h₁, h₂⟩ := henc.of_append
    exact ⟨⟨_, p, bss₁, hp, h₁, rfl⟩, _, q, bss₂, hq, h₂, rfl⟩
  · rintro ⟨⟨_, p, bss₁, hp, h₁, rfl⟩, _, q, bss₂, hq, h₂, rfl⟩
    exact ⟨_, p ++ q, bss₁ ++ bss₂, hp.append hq, List.rel_append h₁ h₂, rfl⟩

theorem emit_append_error (set : InstructionSet) (symbols : Symbols) (ls ls' : List Line)
    (e : LineError) (h : emit set symbols ls = .error e) :
    emit set symbols (ls ++ ls') = .error e := by
  unfold emit at h ⊢
  rw [map_eq_error_iff] at h ⊢
  rw [foldlM_append_eq, h]
  rfl

/-- an image that follows another one: its bytes move up by the end of the first one -/
def Image.Joins (m₁ m₂ m : Image) : Prop :=
  ∀ a b, m.get? a = some b ↔ m₁.get? a = some b ∨
    ∃ a', m₂.get? a' = some b ∧ a.toNat = m₁.endAddress.toNat + a'.toNat

theorem Image.joins_ofBytes (bs cs : List UInt8) (h : (bs ++ cs).length < 2 ^ 32) :
    (ofBytes bs).Joins (ofBytes cs) (ofBytes (bs ++ cs)) := by
  intro a b
  have hlen : (bs ++ cs).length = bs.length + cs.length := List.length_append
  have hend : (ofBytes bs).endAddress.toNat = bs.length := by
    rw [endAddress_ofBytes bs (by omega)]
    exact UInt32.toNat_ofNat_of_lt' (by show bs.length < 2 ^ 32; omega)
  rw [get?_ofBytes _ (by omega), get?_ofBytes _ (by omega), hend]
  simp only [get?_ofBytes cs (by omega)]
  rcases Nat.lt_or_ge a.toNat bs.length with hlt | hge
  · rw [List.getElem?_append_left hlt]
    constructor
    · exact .inl
    · rintro (hb | ⟨a', -, ha⟩)
      · exact hb
      · omega
  · rw [List.getElem?_append_right hge, List.getElem?_eq_none hge]
    have ha := a.toNat_lt
    have hnat : (UInt32.ofNat (a.toNat - bs.length)).toNat = a.toNat - bs.length :=
      UInt32.toNat_ofNat_of_lt' (by show a.toNat - bs.length < 2 ^ 32; omega)
    constructor
    · intro hb
      exact .inr ⟨UInt32.ofNat (a.toNat - bs.length), by rw [hnat, hb], by omega⟩
    · rintro (hb | ⟨a', hb, ha'⟩)
      · exact absurd hb (by simp)
      · rw [ha', Nat.add_sub_cancel_left, hb]

theorem emit_joins (set : InstructionSet) (symbols : Symbols) (ls ls' : List Line)
    (hsize : ∀ p : Program, p.Reads set (ls ++ ls') → p.size < 2 ^ 32) (m₁ m₂ m : Image)
    (h₁ : emit set symbols ls = .ok m₁) (h₂ : emit set symbols ls' = .ok m₂)
    (h : emit set symbols (ls ++ ls') = .ok m) : m₁.Joins m₂ m := by
  obtain ⟨p, bss₁, hp, henc₁, rfl⟩ := (emit_eq_ok_iff _ _ _ _).mp h₁
  obtain ⟨q, bss₂, hq, henc₂, rfl⟩ := (emit_eq_ok_iff _ _ _ _).mp h₂
  have henc : (p ++ q : Program).Encodes symbols (bss₁ ++ bss₂) := List.rel_append henc₁ henc₂
  have hemit := (emit_eq_ok_iff _ _ _ _).mpr ⟨_, _, hp.append hq, henc, rfl⟩
  obtain rfl := Except.ok.inj (hemit.symm.trans h)
  have hlen := henc.length_flatten
  have hlt := hsize _ (hp.append hq)
  rw [List.flatten_append] at hlen ⊢
  exact Image.joins_ofBytes _ _ (by omega)

/-! ## Two texts -/

/-- **Assembly goes through two texts one after the other.**  Let the first text consist of whole
lines, and both together have less than `2 ^ 31` bytes.  The lines of the second one are numbered
on.  The first reading succeeds exactly if it succeeds on both texts and no label is in both up to
case; sizes add up, and the labels of the second text move up by the size of the first.  The second
reading succeeds exactly if it succeeds on both, under any table, and the bytes of the second text
move up by the end of the first.  What fails on the first text fails on both in the same way. -/
theorem assembly_of_append (set : InstructionSet) (s t : Text) (hs : Terminated '\n' s)
    (hlen : byteLength (s ++ t) < 2 ^ 31) :
    sourceLines (s ++ t) =
      sourceLines s ++ (sourceLines t).map (Line.moveDown (s.count '\n')) ∧
    ((∃ l, layOut set (sourceLines (s ++ t)) = .ok l) ↔
      (∃ l, layOut set (sourceLines s) = .ok l) ∧ (∃ l, layOut set (sourceLines t) = .ok l) ∧
        ∀ x ∈ sourceLines s, ∀ y ∈ sourceLines t, ¬ x.SameLabel y) ∧
    (∀ l₁ l₂ l, layOut set (sourceLines s) = .ok l₁ → layOut set (sourceLines t) = .ok l₂ →
      layOut set (sourceLines (s ++ t)) = .ok l → l₁.Joins l₂ l) ∧
    (∀ symbols, ((∃ m, emit set symbols (sourceLines (s ++ t)) = .ok m) ↔
        (∃ m, emit set symbols (sourceLines s) = .ok m) ∧
          ∃ m, emit set symbols (sourceLines t) = .ok m) ∧
      ∀ m₁ m₂ m, emit set symbols (sourceLines s) = .ok m₁ →
        emit set symbols (sourceLines t) = .ok m₂ →
        emit set symbols (sourceLines (s ++ t)) = .ok m → m₁.Joins m₂ m) ∧
    (∀ e, layOut set (sourceLines s) = .error e → layOut set (sourceLines (s ++ t)) = .error e) ∧
    ∀ symbols e, emit set symbols (sourceLines s) = .error e →
      emit set symbols (sourceLines (s ++ t)) = .error e := by
  have hlines := sourceLines_append s t hs
  have hsize : ∀ p : Program, p.Reads set (sourceLines (s ++ t)) → p.size < 2 ^ 32 :=
    fun p hp => hp.size_lt hlen
  have hlayout := fun l => (layOut_moveDown set (s.count '\n') (sourceLines t)).eq_ok_iff l
  have hemit := fun symbols m =>
    (emit_moveDown set symbols (s.count '\n') (sourceLines t)).eq_ok_iff m
  rw [hlines] at hsize
  refine ⟨hlines, ?_, ?_, fun symbols => ⟨?_, ?_⟩, ?_, ?_⟩
  · simp only [hlines, layOut_append_iff, hlayout, List.forall_mem_map]
    rfl
  · intro l₁ l₂ l h₁ h₂ h
    rw [hlines] at h
    exact layOut_joins set _ _ hsize l₁ l₂ l h₁ ((hlayout l₂).mp h₂) h
  · simp only [hlines, emit_append_iff, hemit]
  · intro m₁ m₂ m h₁ h₂ h
    rw [hlines] at h
    exact emit_joins set symbols _ _ hsize m₁ m₂ m h₁ ((hemit symbols m₂).mp h₂) h
  · intro e h
    rw [hlines]
    exact layOut_append_error set _ _ e h
  · intro symbols e h
    rw [hlines]
    exact emit_append_error set symbols _ _ e h

/-- a jump past the seam: `end` is at 1 in the second text and at 3 in both -/
theorem assembly_of_append_jump :
    Terminated '\n' "start: JMP end\r\n".toList ∧
    byteLength ("start: JMP end\r\n".toList ++ "DB 7\nend: HALT".toList) < 2 ^ 31 ∧
    ∃ l₁ l₂ l, layOut .standard (sourceLines "start: JMP end\r\n".toList) = .ok l₁ ∧
      layOut .standard (sourceLines "DB 7\nend: HALT".toList) = .ok l₂ ∧
      layOut .standard
        (sourceLines ("start: JMP end\r\n".toList ++ "DB 7\nend: HALT".toList)) = .ok l ∧
      l₂.symbols.get? "end".toList = some 1 ∧ l.symbols.get? "end".toList = some 3 ∧
      l₁.Joins l₂ l := by
  have hs : Terminated '\n' "start: JMP end\r\n".toList := by decide
  have h₁ : layOut .standard (sourceLines "start: JMP end\r\n".toList) =
      .ok ⟨.ofList [("start".toList, 0)], 2⟩ := by decide +kernel
  have h₂ : layOut .standard (sourceLines "DB 7\nend: HALT".toList) =
      .ok ⟨.ofList [("end".toList, 1)], 2⟩ := by decide +kernel
  have h : layOut .standard
      (sourceLines ("start: JMP end\r\n".toList ++ "DB 7\nend: HALT".toList)) =
      .ok ⟨.ofList [("start".toList, 0), ("end".toList, 3)], 4⟩ := by decide +kernel
  obtain ⟨-, -, hjoins, -⟩ := assembly_of_append .standard _ "DB 7\nend: HALT".toList hs (by decide)
  exact ⟨hs, by decide, _, _, _, h₁, h₂, h, by decide, by decide, hjoins _ _ _ h₁ h₂ h⟩

end TinyCpu

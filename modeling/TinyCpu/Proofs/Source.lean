import TinyCpu.Proofs.Text.Cut
import TinyCpu.Source

/-!
# What source lines keep of a text

The bodies of the lines of a program, one after the other, are part of its text, so all of them
together are no longer than the text (`bodies_sublist`).  Lines without label and comment are
their own bodies (`sourceLines_of_bare`).  With more lines above them, lines change their numbers
and nothing else (`linesFrom_add`).
-/

namespace TinyCpu
open Text

namespace Line

theorem splitLabel_sublist (t : Text) : (splitLabel t).2.Sublist t := by
  unfold splitLabel
  split
  · next name rest hcut =>
    obtain ⟨_, c, _, rfl⟩ := (cut_eq_some_iff _ _ _ _).mp hcut
    split
    · exact (List.sublist_cons_self c rest).trans (List.sublist_append_right name (c :: rest))
    · exact List.Sublist.refl _
  · exact List.Sublist.refl _

theorem read?_eq (number : Nat) (raw : Text) :
    read? number raw =
      if (trim (code raw)).isEmpty then none
      else some ⟨number, raw, (splitLabel (trim (code raw))).1,
        trim (splitLabel (trim (code raw))).2⟩ := rfl

theorem body_sublist (number : Nat) (raw : Text) (line : Line) (h : read? number raw = some line) :
    line.body.Sublist raw := by
  rw [read?_eq] at h
  by_cases he : (trim (code raw)).isEmpty = true
  · simp only [he, if_true, reduceCtorEq] at h
  · rw [if_neg he] at h
    rw [← Option.some.inj h]
    have hcode : (code raw).Sublist raw := List.takeWhile_sublist _
    exact (trim_sublist _).trans
      ((splitLabel_sublist _).trans ((trim_sublist _).trans hcode))

/-- a line that is its own body: trimmed, without label and comment -/
structure Bare (t : Text) : Prop where
  ne_nil : t ≠ []
  trimmed : Trimmed t
  newline : '\n' ∉ t
  comment : ';' ∉ t
  colon : ':' ∉ t

theorem read?_of_bare (number : Nat) (t : Text) (h : Bare t) :
    read? number t = some ⟨number, t, none, t⟩ := by
  have hcode : code t = t := by
    have hall : ∀ c ∈ t, (c != ';') = true := fun c hc => by
      rw [bne_iff_ne]
      rintro rfl
      exact h.comment hc
    exact List.takeWhile_eq_self_iff.mpr hall
  have hlabel : splitLabel t = (none, t) := by
    have hcut : cut (· == ':') t = none := by
      rw [cut_eq_none_iff]
      intro c hc
      rw [beq_eq_false_iff_ne]
      rintro rfl
      exact h.colon hc
    unfold splitLabel
    rw [hcut]
  have hne : t.isEmpty = false := by simpa using h.ne_nil
  rw [read?_eq, hcode, trim_of_trimmed t h.trimmed, hne, hlabel]
  show some (⟨number, t, none, trim t⟩ : Line) = _
  rw [trim_of_trimmed t h.trimmed]

end Line

theorem sourceLines_of_bare (source : Text) (h : ∀ t ∈ lines source, Line.Bare t) :
    sourceLines source = ((lines source).zipIdx 1).map fun p => ⟨p.2, p.1, none, p.1⟩ := by
  have hread : ∀ p ∈ (lines source).zipIdx 1,
      Line.read? p.2 p.1 = some ⟨p.2, p.1, none, p.1⟩ := by
    intro p hp
    exact Line.read?_of_bare p.2 p.1 (h p.1 (List.fst_mem_of_mem_zipIdx hp))
  calc sourceLines source
      = ((lines source).zipIdx 1).filterMap fun p => some ⟨p.2, p.1, none, p.1⟩ :=
        List.filterMap_congr hread
    _ = _ := congrFun List.filterMap_eq_map' _

theorem bodies_sublist_raws (raws : List Text) (n : Nat) :
    (((raws.zipIdx n).filterMap fun p => Line.read? p.2 p.1).flatMap Line.body).Sublist
      raws.flatten := by
  induction raws generalizing n with
  | nil => exact List.Sublist.refl _
  | cons raw raws ih =>
    rw [List.zipIdx_cons, List.filterMap_cons, List.flatten_cons]
    cases hr : Line.read? n raw with
    | none => exact (ih (n + 1)).trans (List.sublist_append_right raw _)
    | some line =>
      rw [List.flatMap_cons]
      exact (Line.body_sublist n raw line hr).append (ih (n + 1))

theorem bodies_sublist (source : Text) :
    ((sourceLines source).flatMap Line.body).Sublist source :=
  (bodies_sublist_raws (lines source) 1).trans (flatten_lines_sublist source)

/-! ## Numbers -/

namespace Line

/-- the same line, with `k` lines more above it -/
def moveDown (k : Nat) (line : Line) : Line := { line with number := line.number + k }

theorem moveDown_moveDown (j k : Nat) (line : Line) :
    (line.moveDown j).moveDown k = line.moveDown (j + k) :=
  congrArg (fun number => ({ line with number } : Line)) (Nat.add_assoc _ _ _)

theorem read?_eq_some {number : Nat} {raw : Text} {line : Line}
    (h : read? number raw = some line) : line.number = number ∧ line.raw = raw := by
  rw [read?_eq] at h
  split at h
  · exact absurd h (by simp)
  · obtain rfl := Option.some.inj h
    exact ⟨rfl, rfl⟩

theorem read?_add (number k : Nat) (raw : Text) :
    read? (number + k) raw = (read? number raw).map (moveDown k) := by
  rw [read?_eq, read?_eq]
  split <;> rfl

end Line

/-- the lines that hold something, the first line having number `n` -/
def linesFrom (n : Nat) (raws : List Text) : List Line :=
  (raws.zipIdx n).filterMap fun p => Line.read? p.2 p.1

theorem sourceLines_eq (source : Text) : sourceLines source = linesFrom 1 (lines source) := rfl

theorem linesFrom_cons (n : Nat) (raw : Text) (raws : List Text) :
    linesFrom n (raw :: raws) = (Line.read? n raw).toList ++ linesFrom (n + 1) raws := by
  unfold linesFrom
  rw [List.zipIdx_cons, List.filterMap_cons]
  cases Line.read? n raw <;> rfl

theorem linesFrom_append (n : Nat) (raws raws' : List Text) :
    linesFrom n (raws ++ raws') = linesFrom n raws ++ linesFrom (n + raws.length) raws' := by
  unfold linesFrom
  rw [List.zipIdx_append, List.filterMap_append]

theorem linesFrom_add (n k : Nat) (raws : List Text) :
    linesFrom (n + k) raws = (linesFrom n raws).map (Line.moveDown k) := by
  induction raws generalizing n with
  | nil => rfl
  | cons raw raws ih =>
    rw [linesFrom_cons, linesFrom_cons, Line.read?_add, Nat.add_right_comm, ih (n + 1),
      List.map_append]
    cases Line.read? n raw <;> rfl

theorem number_of_mem_linesFrom (n : Nat) (raws : List Text) (line : Line)
    (h : line ∈ linesFrom n raws) : n ≤ line.number ∧ line.number < n + raws.length := by
  obtain ⟨p, hp, hread⟩ := List.mem_filterMap.mp h
  rw [(Line.read?_eq_some hread).1]
  obtain ⟨hge, hlt, -⟩ := List.mem_zipIdx hp
  exact ⟨hge, by omega⟩

/-- a line that holds something stands between the lines above it and those below it -/
theorem linesFrom_eq_append_cons (n : Nat) (raws : List Text) (before : List Line) (line : Line)
    (after : List Line) (h : linesFrom n raws = before ++ line :: after) :
    ∃ above below, raws = above ++ line.raw :: below ∧ line.number = n + above.length ∧
      linesFrom n above = before ∧ linesFrom n (above ++ [line.raw]) = before ++ [line] := by
  obtain ⟨ps, qs, hsplit, hps, hqs⟩ := List.filterMap_eq_append_iff.mp h
  obtain ⟨skipped, p, rest, rfl, hnone, hp, -⟩ := List.filterMap_eq_cons_iff.mp hqs
  rw [← List.append_assoc, List.zipIdx_eq_append_iff] at hsplit
  obtain ⟨above, tail, rfl, habove, htail⟩ := hsplit
  have hbefore : linesFrom n above = before := by
    unfold linesFrom
    rw [← habove, List.filterMap_append, hps, List.filterMap_eq_nil_iff.mpr hnone, List.append_nil]
  cases tail with
  | nil => exact absurd htail (by simp)
  | cons raw below =>
    rw [List.zipIdx_cons] at htail
    obtain ⟨rfl, -⟩ := List.cons.inj htail
    obtain ⟨hnumber, hraw⟩ := Line.read?_eq_some hp
    refine ⟨above, below, by rw [hraw], hnumber, hbefore, ?_⟩
    rw [linesFrom_append, hbefore, hraw, linesFrom_cons, hp]
    rfl

end TinyCpu

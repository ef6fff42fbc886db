import TinyCpu.Proofs.Text.Cut

/-!
# Texts of whole pieces

A text that is empty or ends with a separator consists of whole pieces, so what is written after
it is split on its own.

* `Terminated`              nothing stands behind the last separator;
* `splitOn_append`          the pieces of a terminated text and of what follows it;
* `exists_terminated_append`   a text is cut behind its last separator;
* `fields_append_cons`, `fields_trim`   the fields of a text, and the blanks around them;
* `lines_of_not_mem`, `lines_newline`   a text of one line;
* `lines_append`            the lines of a terminated text and of what follows it;
* `exists_lines_eq_take`    the first lines of a text are the lines of a part of it.
-/

namespace TinyCpu.Text

/-- the text is empty or ends with `c` -/
def Terminated (c : Char) (t : Text) : Prop := t = [] ∨ t.getLast? = some c

instance (c : Char) (t : Text) : Decidable (Terminated c t) :=
  inferInstanceAs (Decidable (t = [] ∨ t.getLast? = some c))

theorem terminated_flatMap (c : Char) (ts : List Text) :
    Terminated c (ts.flatMap (· ++ [c])) := by
  cases ts using List.reverseRecOn with
  | nil => exact .inl rfl
  | append_singleton ts t => exact .inr (by simp)

/-! ## Pieces -/

theorem not_mem_of_mem_splitOn (c : Char) (t s : Text) (h : s ∈ t.splitOn c) : c ∉ s := by
  induction t generalizing s with
  | nil =>
    rw [List.splitOn_nil, List.mem_singleton] at h
    rw [h]
    exact List.not_mem_nil
  | cons d t ih =>
    rw [List.splitOn_cons_eq_if_modifyHead] at h
    split at h
    · rcases List.mem_cons.mp h with rfl | h'
      · exact List.not_mem_nil
      · exact ih s h'
    · next hd =>
      obtain ⟨u, us, hus⟩ := List.exists_cons_of_ne_nil (List.splitOn_ne_nil c t)
      rw [hus] at h ih
      rcases List.mem_cons.mp h with rfl | h'
      · intro hc
        rcases List.mem_cons.mp hc with rfl | hc'
        · exact hd BEq.rfl
        · exact ih u List.mem_cons_self hc'
      · exact ih s (List.mem_cons_of_mem _ h')

theorem length_splitOn (c : Char) (t : Text) : (t.splitOn c).length = t.count c + 1 := by
  induction t with
  | nil => rfl
  | cons d t ih =>
    rw [List.splitOn_cons_eq_if_modifyHead, List.count_cons]
    split
    · rw [List.length_cons, ih]
    · rw [List.length_modifyHead, ih, Nat.add_zero]

theorem splitOn_of_terminated (c : Char) (s : Text) (hs : Terminated c s) :
    s.splitOn c = (s.splitOn c).dropLast ++ [[]] := by
  rcases hs with rfl | hs
  · rfl
  · obtain ⟨s, rfl⟩ := List.getLast?_eq_some_iff.mp hs
    rw [List.splitOn_append_cons_self, List.splitOn_nil, List.dropLast_concat]

theorem splitOn_append (c : Char) (s t : Text) (hs : Terminated c s) :
    (s ++ t).splitOn c = (s.splitOn c).dropLast ++ t.splitOn c := by
  rcases hs with rfl | hs
  · rfl
  · obtain ⟨s, rfl⟩ := List.getLast?_eq_some_iff.mp hs
    rw [List.append_assoc, List.singleton_append, List.splitOn_append_cons_self,
      List.splitOn_append_cons_self, List.splitOn_nil, List.dropLast_concat]

theorem flatMap_dropLast_splitOn (c : Char) (s : Text) (hs : Terminated c s) :
    (s.splitOn c).dropLast.flatMap (· ++ [c]) = s := by
  have hjoin := intercalate_append c (s.splitOn c).dropLast [[]] (by simp)
  rw [← splitOn_of_terminated c s hs, List.intercalate_splitOn, List.intercalate_singleton,
    List.append_nil] at hjoin
  exact hjoin.symm

/-- a text is cut behind its last separator -/
theorem exists_terminated_append (c : Char) (t : Text) :
    ∃ before last, t = before ++ last ∧ Terminated c before ∧ c ∉ last := by
  obtain ⟨pieces, last, hsplit⟩ :=
    (List.eq_nil_or_concat' (t.splitOn c)).resolve_left (List.splitOn_ne_nil c t)
  refine ⟨pieces.flatMap (· ++ [c]), last, ?_, terminated_flatMap c pieces, ?_⟩
  · have hjoin := intercalate_append c pieces [last] (by simp)
    rwa [← hsplit, List.intercalate_splitOn, List.intercalate_singleton] at hjoin
  · exact not_mem_of_mem_splitOn c t last (by rw [hsplit]; simp)

/-! ## Fields -/

theorem fields_append_cons (c : Char) (s t : Text) :
    fields c (s ++ c :: t) = fields c s ++ fields c t := by
  unfold fields
  rw [List.splitOn_append_cons_self, List.map_append]

theorem fields_of_not_mem (c : Char) (t : Text) (h : c ∉ t) : fields c t = [trim t] := by
  unfold fields
  rw [List.splitOn_eq_singleton h]
  rfl

/-- blanks at the end of a text belong to its last field -/
theorem fields_append_blanks (c : Char) (hc : isBlank c = false) (t right : Text)
    (h : Blanks right) : fields c (t ++ right) = fields c t := by
  obtain ⟨before, last, rfl, hbefore, hlast⟩ := exists_terminated_append c t
  have hright : c ∉ last ++ right := by
    intro hmem
    rcases List.mem_append.mp hmem with hm | hm
    · exact hlast hm
    · rw [h c hm] at hc
      exact absurd hc (by simp)
  unfold fields
  rw [List.append_assoc, splitOn_append c before _ hbefore, splitOn_append c before _ hbefore,
    List.splitOn_eq_singleton hright, List.splitOn_eq_singleton hlast, List.map_append,
    List.map_append, List.map_singleton, List.map_singleton, trim_append_blanks last right h]

theorem fields_blanks_append (c : Char) (hc : isBlank c = false) (left t : Text)
    (h : Blanks left) : fields c (left ++ t) = fields c t := by
  induction left with
  | nil => rfl
  | cons b left ih =>
    have hb : isBlank b = true := h b List.mem_cons_self
    have hne : (b == c) = false := by
      rw [beq_eq_false_iff_ne]
      rintro rfl
      exact absurd (hb.symm.trans hc) (by simp)
    rw [← ih fun x hx => h x (List.mem_cons_of_mem b hx)]
    unfold fields
    rw [List.cons_append, List.splitOn_cons_eq_if_modifyHead, hne]
    obtain ⟨u, us, hus⟩ := List.exists_cons_of_ne_nil (List.splitOn_ne_nil c (left ++ t))
    rw [hus]
    show trim (b :: u) :: us.map trim = trim u :: us.map trim
    rw [trim_cons_blank b u hb]

/-- the blanks around a text are blanks around its fields -/
theorem fields_trim (c : Char) (hc : isBlank c = false) (t : Text) :
    fields c (trim t) = fields c t := by
  obtain ⟨left, right, hl, hr, heq⟩ := exists_blanks_trim t
  conv_rhs => rw [heq]
  rw [fields_append_blanks c hc _ right hr, fields_blanks_append c hc left _ hl]

/-! ## Lines -/

theorem lines_of_terminated (s : Text) (hs : Terminated '\n' s) :
    lines s = (s.splitOn '\n').dropLast.map dropReturn := by
  have hlast : (s.splitOn '\n').getLast? = some [] := by
    rw [splitOn_of_terminated '\n' s hs, List.getLast?_concat]
  unfold lines
  rw [hlast]
  exact List.append_nil _

theorem lines_of_not_mem (t : Text) (hne : t ≠ []) (h : '\n' ∉ t) : lines t = [t] := by
  unfold lines
  rw [List.splitOn_eq_singleton h]
  show [t].filter (fun rest => !rest.isEmpty) = [t]
  simp [hne]

/-- a text without a newline and then a newline are one line, without a carriage return at its end -/
theorem lines_newline (t : Text) (h : '\n' ∉ t) : lines (t ++ ['\n']) = [dropReturn t] := by
  have hsplit := splitOn_terminated '\n' [t] (by simpa using h)
  rw [List.flatMap_singleton] at hsplit
  rw [lines_of_terminated _ (.inr List.getLast?_concat), hsplit]
  rfl

theorem lines_append (s t : Text) (hs : Terminated '\n' s) :
    lines (s ++ t) = lines s ++ lines t := by
  have hne : t.splitOn '\n' ≠ [] := List.splitOn_ne_nil _ _
  rw [lines_of_terminated s hs]
  unfold lines
  rw [splitOn_append '\n' s t hs, List.dropLast_append_of_ne_nil hne, List.map_append,
    List.getLast?_append, List.getLast?_eq_some_getLast hne, List.append_assoc]
  rfl

theorem length_lines_of_terminated (s : Text) (hs : Terminated '\n' s) :
    (lines s).length = s.count '\n' := by
  rw [lines_of_terminated s hs, List.length_map, List.length_dropLast, length_splitOn,
    Nat.add_sub_cancel]

/-- the first lines of a text, but for its last line, are the lines of a part of it -/
theorem exists_lines_eq_take (t : Text) (n : Nat) (hn : n < (lines t).length) :
    ∃ before after, t = before ++ after ∧ Terminated '\n' before ∧
      lines before = (lines t).take n := by
  have hcount : n ≤ (t.splitOn '\n').dropLast.length := by
    have hlast : ((t.splitOn '\n').getLast?.toList.filter fun rest => !rest.isEmpty).length ≤ 1 := by
      refine (List.length_filter_le _ _).trans ?_
      cases (t.splitOn '\n').getLast? <;> simp
    unfold lines at hn
    rw [List.length_append, List.length_map] at hn
    omega
  have hdrop : (t.splitOn '\n').drop n ≠ [] := by
    have hpos := List.length_pos_iff.mpr (List.splitOn_ne_nil '\n' t)
    rw [List.length_dropLast] at hcount
    rw [← List.length_pos_iff, List.length_drop]
    omega
  have htake : (t.splitOn '\n').take n = (t.splitOn '\n').dropLast.take n := by
    rw [List.dropLast_eq_take, List.take_take, Nat.min_eq_left]
    rwa [List.length_dropLast] at hcount
  refine ⟨((t.splitOn '\n').take n).flatMap (· ++ ['\n']),
    ['\n'].intercalate ((t.splitOn '\n').drop n), ?_, terminated_flatMap _ _, ?_⟩
  · rw [← intercalate_append '\n' _ _ hdrop, List.take_append_drop, List.intercalate_splitOn]
  · rw [lines_of_terminated _ (terminated_flatMap _ _), splitOn_terminated, List.dropLast_concat]
    · unfold lines
      rw [htake, List.map_take, List.take_append_of_le_length (by rwa [List.length_map])]
    · exact fun s hs => not_mem_of_mem_splitOn '\n' t s (List.mem_of_mem_take hs)

end TinyCpu.Text

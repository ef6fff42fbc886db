import Mathlib.Data.List.Infix
import Mathlib.Data.List.TakeWhile
import TinyCpu.Text.Basic

/-!
# Cutting text

What the cuts of a text keep of it.

* `cut_eq_some_iff`     the two pieces of a cut, and the character between them;
* `trim_of_trimmed`     nothing happens to a text without blanks at its ends;
* `exists_blanks_trim`  a text is its trimmed form between blanks;
* `fields_intercalate`  joined pieces are read back by `fields`;
* `lines_terminated`, `lines_intercalate`   lines, each with its newline or with newlines between
                        them, are read back by `lines`;
* `flatten_splitOn`     the pieces of a text, without the separators between them;
* `flatten_lines_sublist`  the lines of a text hold nothing that the text does not hold.
-/

namespace TinyCpu.Text

/-! ## Blanks -/

/-- no blank at either end -/
def Trimmed (t : Text) : Prop :=
  (∀ c ∈ t.head?, isBlank c = false) ∧ ∀ c ∈ t.getLast?, isBlank c = false

theorem Trimmed.append {a b : Text} (ha : Trimmed a) (hb : Trimmed b) (hna : a ≠ [])
    (hnb : b ≠ []) (m : Text) : Trimmed (a ++ m ++ b) := by
  have hhead : (a ++ m ++ b).head? = a.head? := by
    obtain ⟨c, a, rfl⟩ := List.exists_cons_of_ne_nil hna
    rfl
  have hlast : (a ++ m ++ b).getLast? = b.getLast? := by
    rw [List.getLast?_append, List.getLast?_eq_some_getLast hnb]
    rfl
  unfold Trimmed
  rw [hhead, hlast]
  exact ⟨ha.1, hb.2⟩

theorem trimmed_of_forall (t : Text) (h : ∀ c ∈ t, isBlank c = false) : Trimmed t :=
  ⟨fun c hc => h c (List.mem_of_mem_head? hc), fun c hc => h c (List.mem_of_mem_getLast? hc)⟩

theorem trimStart_of_trimmed (t : Text) (h : Trimmed t) : trimStart t = t := by
  unfold trimStart
  cases t with
  | nil => rfl
  | cons c t => rw [List.dropWhile_cons_of_neg (by simp [h.1 c rfl])]

theorem trim_of_trimmed (t : Text) (h : Trimmed t) : trim t = t := by
  unfold trim
  rw [trimStart_of_trimmed t h]
  have hrev : Trimmed t.reverse := by
    unfold Trimmed
    rw [List.head?_reverse, List.getLast?_reverse]
    exact ⟨h.2, h.1⟩
  show (trimStart t.reverse).reverse = t
  rw [trimStart_of_trimmed _ hrev, List.reverse_reverse]

theorem trim_cons_blank (c : Char) (t : Text) (h : isBlank c = true) : trim (c :: t) = trim t := by
  unfold trim trimStart
  rw [List.dropWhile_cons_of_pos h]

def Blanks (t : Text) : Prop := ∀ c ∈ t, isBlank c = true

instance (t : Text) : Decidable (Blanks t) :=
  decidable_of_iff (t.all isBlank = true) List.all_eq_true

theorem blanks_nil : Blanks [] := fun _ hc => absurd hc List.not_mem_nil

theorem trim_blanks_append (left t : Text) (h : Blanks left) : trim (left ++ t) = trim t := by
  unfold trim trimStart
  rw [List.dropWhile_append_of_pos h]

theorem trim_append_blanks (t right : Text) (h : Blanks right) : trim (t ++ right) = trim t := by
  have hend : ∀ s : Text, trimEnd (s ++ right) = trimEnd s := by
    intro s
    unfold trimEnd
    rw [List.reverse_append,
      List.dropWhile_append_of_pos fun c hc => h c (List.mem_reverse.mp hc)]
  have hright : right.dropWhile isBlank = [] := List.dropWhile_eq_nil_iff.mpr h
  unfold trim trimStart
  rw [List.dropWhile_append]
  split
  · next he => rw [hright, List.isEmpty_iff.mp he]
  · exact hend _

theorem trim_between (left t right : Text) (hl : Blanks left) (ht : Trimmed t)
    (hr : Blanks right) : trim (left ++ t ++ right) = t := by
  rw [trim_append_blanks _ right hr, trim_blanks_append left t hl, trim_of_trimmed t ht]

theorem exists_blanks_trimEnd (t : Text) : ∃ right, Blanks right ∧ t = trimEnd t ++ right := by
  refine ⟨(t.reverse.takeWhile isBlank).reverse,
    fun c hc => List.mem_takeWhile_imp (List.mem_reverse.mp hc), ?_⟩
  unfold trimEnd
  rw [← List.reverse_append, List.takeWhile_append_dropWhile, List.reverse_reverse]

/-- a text is its trimmed form between blanks -/
theorem exists_blanks_trim (t : Text) :
    ∃ left right, Blanks left ∧ Blanks right ∧ t = left ++ trim t ++ right := by
  obtain ⟨right, hr, heq⟩ := exists_blanks_trimEnd (trimStart t)
  refine ⟨t.takeWhile isBlank, right, fun c hc => List.mem_takeWhile_imp hc, hr, ?_⟩
  calc t = t.takeWhile isBlank ++ trimStart t := List.takeWhile_append_dropWhile.symm
    _ = t.takeWhile isBlank ++ trim t ++ right := by
        rw [List.append_assoc]
        exact congrArg _ heq

theorem trim_trimEnd (t : Text) : trim (trimEnd t) = trim t := by
  obtain ⟨right, hr, heq⟩ := exists_blanks_trimEnd t
  conv_rhs => rw [heq, trim_append_blanks _ right hr]

/-- without a blank in front, only the end is trimmed -/
theorem trim_cons (c : Char) (t : Text) (h : isBlank c = false) :
    trim (c :: t) = c :: trimEnd t := by
  have hc : ¬ isBlank c = true := Bool.not_eq_true _ ▸ h
  unfold trim trimStart trimEnd
  rw [List.dropWhile_cons_of_neg hc, List.reverse_cons, List.dropWhile_append,
    List.dropWhile_cons_of_neg hc]
  split
  · next hnil =>
    rw [List.isEmpty_iff.mp hnil]
    rfl
  · rw [List.reverse_append]
    rfl

theorem trimmed_trim (t : Text) : Trimmed (trim t) := by
  have hhead : ∀ s : Text, ∀ c ∈ (trimStart s).head?, isBlank c = false := by
    intro s c hc
    have h := List.head?_dropWhile_not isBlank s
    unfold trimStart at hc
    rw [Option.mem_def] at hc
    rw [hc] at h
    exact h
  refine ⟨fun c hc => ?_, fun c hc => ?_⟩
  · have hfirst : c ∈ (trimStart t).head? := by
      have hpre : trim t <+: trimStart t := by
        have hsuffix := List.dropWhile_suffix isBlank (l := (trimStart t).reverse)
        rw [← List.reverse_prefix, List.reverse_reverse] at hsuffix
        exact hsuffix
      obtain ⟨rest, hrest⟩ := hpre
      rw [← hrest, List.head?_append]
      rw [Option.mem_def] at hc ⊢
      rw [hc]
      rfl
    exact hhead t c hfirst
  · have hlast : c ∈ (trimStart (trimStart t).reverse).head? := by
      rw [← List.getLast?_reverse]
      exact hc
    exact hhead _ c hlast

theorem trimStart_sublist (t : Text) : (trimStart t).Sublist t := List.dropWhile_sublist _

theorem trim_sublist (t : Text) : (trim t).Sublist t := by
  have hend : ∀ s : Text, (trimEnd s).Sublist s := by
    intro s
    have h := (trimStart_sublist s.reverse).reverse
    rw [List.reverse_reverse] at h
    exact h
  exact (hend _).trans (trimStart_sublist t)

/-! ## The first character of a kind -/

theorem dropLead_of_head? (c : Char) (t : Text) (h : t.head? ≠ some c) : dropLead c t = t := by
  cases t with
  | nil => rfl
  | cons d t => exact if_neg fun heq => h (congrArg some heq)

theorem cut_append (p : Char → Bool) (a : Text) (c : Char) (b : Text)
    (ha : ∀ x ∈ a, p x = false) (hc : p c = true) : cut p (a ++ c :: b) = some (a, b) := by
  have ha' : ∀ x ∈ a, (!p x) = true := fun x hx => by simp [ha x hx]
  unfold cut
  rw [List.dropWhile_append_of_pos ha', List.takeWhile_append_of_pos ha',
    List.dropWhile_cons_of_neg (by simp [hc]), List.takeWhile_cons_of_neg (by simp [hc]),
    List.append_nil]

theorem cut_eq_none_iff (p : Char → Bool) (t : Text) :
    cut p t = none ↔ ∀ x ∈ t, p x = false := by
  have hnil : t.dropWhile (fun c => !p c) = [] ↔ ∀ x ∈ t, p x = false := by
    rw [List.dropWhile_eq_nil_iff]
    simp only [Bool.not_eq_true']
  rw [← hnil]
  unfold cut
  cases t.dropWhile (fun c => !p c) with
  | nil => simp
  | cons c rest => simp

theorem cut_eq_some_iff (p : Char → Bool) (t a b : Text) :
    cut p t = some (a, b) ↔ (∀ x ∈ a, p x = false) ∧ ∃ c, p c = true ∧ t = a ++ c :: b := by
  constructor
  · intro h
    induction t generalizing a with
    | nil => simp [cut] at h
    | cons d t ih =>
      cases hd : p d with
      | true =>
        have h' := cut_append p [] d t (by simp) hd
        rw [List.nil_append, h] at h'
        obtain ⟨rfl, rfl⟩ := Prod.mk.inj (Option.some.inj h')
        exact ⟨by simp, d, hd, rfl⟩
      | false =>
        have hstep : cut p (d :: t) = (cut p t).map fun q => (d :: q.1, q.2) := by
          unfold cut
          rw [List.dropWhile_cons_of_pos (by simp [hd]), List.takeWhile_cons_of_pos (by simp [hd])]
          cases t.dropWhile (fun c => !p c) <;> rfl
        rw [hstep] at h
        obtain ⟨⟨a', b'⟩, hcut, heq⟩ := Option.map_eq_some_iff.mp h
        obtain ⟨rfl, rfl⟩ := Prod.mk.inj heq
        obtain ⟨ha, c, hc, rfl⟩ := ih a' hcut
        refine ⟨fun x hx => ?_, c, hc, rfl⟩
        rcases List.mem_cons.mp hx with rfl | hx'
        · exact hd
        · exact ha x hx'
  · rintro ⟨ha, c, hc, rfl⟩
    exact cut_append p a c b ha hc

theorem inside?_eq_some_iff (l r : Char) (t u : Text) :
    inside? l r t = some u ↔ t = l :: u ++ [r] := by
  cases t with
  | nil => simp [inside?]
  | cons c t =>
    show (if c = l ∧ t.getLast? = some r then some t.dropLast else none) = some u ↔ _
    constructor
    · intro h
      by_cases hc : c = l ∧ t.getLast? = some r
      · rw [if_pos hc] at h
        rw [← Option.some.inj h, hc.1, List.cons_append, List.dropLast_append_getLast? r hc.2]
      · rw [if_neg hc] at h
        exact absurd h (by simp)
    · intro h
      obtain ⟨rfl, rfl⟩ := List.cons.inj h
      show (if c = c ∧ (u ++ [r]).getLast? = some r then some (u ++ [r]).dropLast else none) = _
      rw [if_pos ⟨rfl, List.getLast?_concat⟩, List.dropLast_concat]

/-! ## Pieces between separators -/

theorem length_splitOn_le (c : Char) (t : Text) : (t.splitOn c).length ≤ t.length + 1 := by
  induction t with
  | nil => simp
  | cons d t ih =>
    rw [List.splitOn_cons_eq_if_modifyHead]
    split
    · rw [List.length_cons, List.length_cons]
      omega
    · rw [List.length_modifyHead, List.length_cons]
      omega

theorem length_fields_le (c : Char) (t : Text) : (fields c t).length ≤ t.length + 1 := by
  unfold fields
  rw [List.length_map]
  exact length_splitOn_le c t

theorem fields_intercalate (c : Char) (ts : List Text) (hne : ts ≠ [])
    (hsep : ∀ t ∈ ts, c ∉ t) (htrim : ∀ t ∈ ts, Trimmed t) :
    fields c ([c].intercalate ts) = ts := by
  unfold fields
  rw [List.splitOn_intercalate c hsep hne]
  calc ts.map trim = ts.map id := List.map_congr_left fun t ht => trim_of_trimmed t (htrim t ht)
    _ = ts := List.map_id ts

theorem intercalate_comma_blank (t : Text) (ts : List Text) :
    [',', ' '].intercalate (t :: ts) = [','].intercalate (t :: ts.map (' ' :: ·)) := by
  induction ts generalizing t with
  | nil => rfl
  | cons u us ih =>
    rw [List.map_cons, List.intercalate_cons_cons, List.intercalate_cons_cons, ih]
    cases us <;> simp [List.intercalate_cons_cons]

/-- a blank after each separator is trimmed away -/
theorem fields_intercalate_blank (t : Text) (ts : List Text) (hsep : ∀ u ∈ t :: ts, ',' ∉ u)
    (htrim : ∀ u ∈ t :: ts, Trimmed u) : fields ',' ([',', ' '].intercalate (t :: ts)) = t :: ts := by
  have hsep' : ∀ u ∈ t :: ts.map (' ' :: ·), ',' ∉ u := by
    intro u hu
    rcases List.mem_cons.mp hu with rfl | hu'
    · exact hsep u List.mem_cons_self
    · obtain ⟨v, hv, rfl⟩ := List.mem_map.mp hu'
      simpa using hsep v (List.mem_cons_of_mem _ hv)
  unfold fields
  rw [intercalate_comma_blank, List.splitOn_intercalate ',' hsep' (by simp), List.map_cons,
    trim_of_trimmed t (htrim t List.mem_cons_self), List.map_map]
  congr 1
  calc ts.map (trim ∘ (' ' :: ·)) = ts.map id := by
        refine List.map_congr_left fun u hu => ?_
        show trim (' ' :: u) = u
        rw [trim_cons_blank ' ' u (by decide), trim_of_trimmed u (htrim u (List.mem_cons_of_mem _ hu))]
    _ = ts := List.map_id ts

/-- the pieces of a text are what is left of it without the separators -/
theorem flatten_splitOn (c : Char) (t : Text) : (t.splitOn c).flatten = t.filter (· != c) := by
  induction t with
  | nil => rfl
  | cons d t ih =>
    rw [List.splitOn_cons_eq_if_modifyHead]
    split
    · next hd => rw [List.filter_cons_of_neg (by simpa using hd), ← ih, List.flatten_cons,
        List.nil_append]
    · next hd =>
      obtain ⟨s, ss, hs⟩ := List.exists_cons_of_ne_nil (List.splitOn_ne_nil c t)
      rw [List.filter_cons_of_pos (by simpa using hd), ← ih, hs]
      rfl

theorem flatten_splitOn_sublist (c : Char) (t : Text) : (t.splitOn c).flatten.Sublist t := by
  rw [flatten_splitOn]
  exact List.filter_sublist

/-- joined pieces, each of the first ones with its separator -/
theorem intercalate_append (c : Char) (ts us : List Text) (hus : us ≠ []) :
    [c].intercalate (ts ++ us) = ts.flatMap (· ++ [c]) ++ [c].intercalate us := by
  induction ts with
  | nil => rfl
  | cons t ts ih =>
    obtain ⟨v, vs, hvs⟩ := List.exists_cons_of_ne_nil (List.append_ne_nil_of_right_ne_nil ts hus)
    rw [List.flatMap_cons, List.append_assoc, ← ih, List.cons_append, hvs,
      List.intercalate_cons_cons]

theorem mem_intercalate (c : Char) (s : Text) (ts : List Text) (h : c ∈ s.intercalate ts) :
    c ∈ s ∨ ∃ t ∈ ts, c ∈ t := by
  induction ts with
  | nil => exact absurd h List.not_mem_nil
  | cons t ts ih =>
    cases ts with
    | nil => exact .inr ⟨t, List.mem_cons_self, by rwa [List.intercalate_singleton] at h⟩
    | cons u ts =>
      rw [List.intercalate_cons_cons, List.mem_append, List.mem_append] at h
      rcases h with (ht | hs) | hrest
      · exact .inr ⟨t, List.mem_cons_self, ht⟩
      · exact .inl hs
      · rcases ih hrest with hs | ⟨v, hv, hc⟩
        · exact .inl hs
        · exact .inr ⟨v, List.mem_cons_of_mem _ hv, hc⟩

theorem trimmed_intercalate (sep : Text) (ts : List Text) (hne : ts ≠ [])
    (h : ∀ t ∈ ts, t ≠ [] ∧ Trimmed t) :
    sep.intercalate ts ≠ [] ∧ Trimmed (sep.intercalate ts) := by
  induction ts with
  | nil => exact absurd rfl hne
  | cons t ts ih =>
    obtain ⟨htne, httrim⟩ := h t List.mem_cons_self
    cases ts with
    | nil =>
      rw [List.intercalate_singleton]
      exact ⟨htne, httrim⟩
    | cons u us =>
      obtain ⟨hne', htrim⟩ := ih (by simp) fun v hv => h v (List.mem_cons_of_mem _ hv)
      rw [List.intercalate_cons_cons]
      exact ⟨by simp [htne], httrim.append htrim htne hne' sep⟩

/-! ## Lines -/

/-- a text of whole lines splits at the newlines into the lines and a last empty piece -/
theorem splitOn_terminated (c : Char) (ts : List Text) (hsep : ∀ t ∈ ts, c ∉ t) :
    (ts.flatMap (· ++ [c])).splitOn c = ts ++ [[]] := by
  have hjoin : [c].intercalate (ts ++ [[]]) = ts.flatMap (· ++ [c]) := by
    rw [intercalate_append c ts [[]] (by simp), List.intercalate_singleton, List.append_nil]
  have hsep' : ∀ t ∈ ts ++ [[]], c ∉ t := by
    intro t ht
    rcases List.mem_append.mp ht with h | h
    · exact hsep t h
    · rw [List.mem_singleton.mp h]
      exact List.not_mem_nil
  rw [← hjoin, List.splitOn_intercalate c hsep' (by simp)]

/-- lines without a newline or a last carriage return are read back -/
theorem lines_terminated (ts : List Text) (hnewline : ∀ t ∈ ts, '\n' ∉ t)
    (hreturn : ∀ t ∈ ts, t.getLast? ≠ some '\r') : lines (ts.flatMap (· ++ ['\n'])) = ts := by
  have hkeep : ts.map dropReturn = ts := by
    calc ts.map dropReturn = ts.map id :=
          List.map_congr_left fun t ht => if_neg (hreturn t ht)
      _ = ts := List.map_id ts
  unfold lines
  rw [splitOn_terminated '\n' ts hnewline, List.dropLast_concat, hkeep, List.getLast?_concat]
  exact List.append_nil ts

/-- lines with a newline between them, none of them empty, are read back -/
theorem lines_intercalate (ts : List Text) (hne : ∀ t ∈ ts, t ≠ [])
    (hnewline : ∀ t ∈ ts, '\n' ∉ t) (hreturn : ∀ t ∈ ts, t.getLast? ≠ some '\r') :
    lines (['\n'].intercalate ts) = ts := by
  cases hlast : ts.getLast? with
  | none =>
    rw [List.getLast?_eq_none_iff.mp hlast]
    rfl
  | some t =>
    have hts : ts ≠ [] := by
      rintro rfl
      exact absurd hlast (by simp)
    have hkeep : ts.dropLast.map dropReturn = ts.dropLast := by
      calc ts.dropLast.map dropReturn = ts.dropLast.map id :=
            List.map_congr_left fun u hu => if_neg (hreturn u (List.mem_of_mem_dropLast hu))
        _ = ts.dropLast := List.map_id _
    have ht : t.isEmpty = false := by
      simpa using hne t (List.mem_of_getLast? hlast)
    unfold lines
    rw [List.splitOn_intercalate '\n' hnewline hts, hkeep, hlast, Option.toList_some,
      List.filter_cons_of_pos (by simp [ht]), List.filter_nil]
    exact List.dropLast_append_getLast? t hlast

theorem dropReturn_sublist (t : Text) : (dropReturn t).Sublist t := by
  unfold dropReturn
  split
  · exact List.dropLast_sublist t
  · exact List.Sublist.refl t

theorem flatten_map_dropReturn_sublist (ts : List Text) :
    (ts.map dropReturn).flatten.Sublist ts.flatten := by
  induction ts with
  | nil => exact List.Sublist.refl _
  | cons t ts ih => exact (dropReturn_sublist t).append ih

/-- the lines of a text hold characters of the text, in their order -/
theorem flatten_lines_sublist (t : Text) : (lines t).flatten.Sublist t := by
  have hne : t.splitOn '\n' ≠ [] := List.splitOn_ne_nil _ _
  have hsplit : (t.splitOn '\n').dropLast.flatten ++ (t.splitOn '\n').getLast hne
      = (t.splitOn '\n').flatten := by
    rw [← List.flatten_concat, List.dropLast_concat_getLast hne]
  have hrest : ((t.splitOn '\n').getLast?.toList.filter fun rest => !rest.isEmpty).flatten.Sublist
      ((t.splitOn '\n').getLast hne) := by
    rw [List.getLast?_eq_some_getLast hne, Option.toList_some, List.filter_cons]
    split <;> simp
  unfold lines
  rw [List.flatten_append]
  refine ((flatten_map_dropReturn_sublist _).append hrest).trans ?_
  rw [hsplit]
  exact flatten_splitOn_sublist '\n' t

/-! ## UTF-8 -/

theorem length_le_byteLength (t : Text) : t.length ≤ byteLength t := by
  unfold byteLength toUtf8
  induction t with
  | nil => simp
  | cons c t ih =>
    have hc : 0 < (String.utf8EncodeChar c).length := by
      rw [String.length_utf8EncodeChar]
      exact c.utf8Size_pos
    rw [List.flatMap_cons, List.length_append, List.length_cons]
    omega

end TinyCpu.Text

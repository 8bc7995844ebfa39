import Mathlib.Data.List.DropRight
import Fabula.Text.Blank
import Fabula.Text.Lines
import Fabula.Text.Split

/-!
# Trimming and cutting

Trimming takes blanks from the two ends and nothing else, so blanks put at the ends of a text are
lost on it. A text that begins with a character that is not blank keeps everything up to its last
character that is not.
-/

namespace Fabula.Text

section Trim
variable {c mark : Char} {cs ls rs pre rest : List Char}

theorem dropWhile_append_of_all {α : Type} {p : α → Bool} {xs : List α}
    (h : ∀ x ∈ xs, p x = true) (ys : List α) : (xs ++ ys).dropWhile p = ys.dropWhile p := by
  rw [List.dropWhile_append, List.dropWhile_eq_nil_iff.mpr h]
  rfl

theorem trimLeft_blanks_append (h : ∀ c ∈ ls, isBlank c = true) (cs : List Char) :
    trimLeft (ls ++ cs) = trimLeft cs :=
  dropWhile_append_of_all h cs

theorem trimRight_append_blanks (h : ∀ c ∈ rs, isBlank c = true) (cs : List Char) :
    trimRight (cs ++ rs) = trimRight cs := by
  rw [trimRight, trimRight, List.reverse_append,
    dropWhile_append_of_all fun c hc => h c (List.mem_reverse.mp hc)]

theorem trimRight_append_of_not_blank (h : isBlank mark = false) (pre rest : List Char) :
    trimRight (pre ++ mark :: rest) = pre ++ mark :: trimRight rest := by
  have happ : (pre ++ mark :: rest).reverse = rest.reverse ++ (mark :: pre.reverse) := by simp
  rw [trimRight, trimRight, happ, List.dropWhile_append]
  split
  · rename_i hall
    rw [List.dropWhile_cons_of_neg (by simp [h])]
    have hnil : rest.reverse.dropWhile isBlank = [] := List.isEmpty_iff.mp hall
    simp [hnil]
  · simp

theorem exists_trimLeft (cs : List Char) :
    ∃ ls, (∀ c ∈ ls, isBlank c = true) ∧ cs = ls ++ trimLeft cs :=
  ⟨cs.takeWhile isBlank, fun _ hc => List.mem_takeWhile_imp hc,
    (List.takeWhile_append_dropWhile).symm⟩

theorem exists_trimRight (cs : List Char) :
    ∃ rs, (∀ c ∈ rs, isBlank c = true) ∧ cs = trimRight cs ++ rs := by
  obtain ⟨ls, hls, hcs⟩ := exists_trimLeft cs.reverse
  refine ⟨ls.reverse, fun c hc => hls c (List.mem_reverse.mp hc), ?_⟩
  have hrev := congrArg List.reverse hcs
  rwa [List.reverse_reverse, List.reverse_append] at hrev

theorem trim_blanks_append (h : ∀ c ∈ ls, isBlank c = true) (cs : List Char) :
    trim (ls ++ cs) = trim cs := by
  rw [trim, trim, trimLeft_blanks_append h]

theorem trim_append_blanks (h : ∀ c ∈ rs, isBlank c = true) (cs : List Char) :
    trim (cs ++ rs) = trim cs := by
  rw [trim, trim]
  by_cases hall : ∀ c ∈ cs, isBlank c = true
  · have hcs : trimLeft cs = [] := List.dropWhile_eq_nil_iff.mpr hall
    have hrs : trimLeft rs = [] := List.dropWhile_eq_nil_iff.mpr h
    rw [trimLeft_blanks_append hall, hcs, hrs]
  · have hne : ¬ (cs.dropWhile isBlank).isEmpty = true := by
      rw [List.isEmpty_iff, List.dropWhile_eq_nil_iff]
      exact hall
    have hleft : trimLeft (cs ++ rs) = trimLeft cs ++ rs := by
      rw [trimLeft, List.dropWhile_append, if_neg hne]
      rfl
    rw [hleft, trimRight_append_blanks h]

/-- A text is its trimmed part between blanks. -/
theorem exists_trim (cs : List Char) : ∃ ls rs, (∀ c ∈ ls, isBlank c = true) ∧
    (∀ c ∈ rs, isBlank c = true) ∧ cs = ls ++ trim cs ++ rs := by
  obtain ⟨ls, hls, hl⟩ := exists_trimLeft cs
  obtain ⟨rs, hrs, hr⟩ := exists_trimRight (trimLeft cs)
  exact ⟨ls, rs, hls, hrs, by rw [List.append_assoc, trim, ← hr, ← hl]⟩

@[simp] theorem trim_trim (cs : List Char) : trim (trim cs) = trim cs := by
  obtain ⟨ls, rs, hls, hrs, hcs⟩ := exists_trim cs
  calc trim (trim cs) = trim (ls ++ trim cs ++ rs) := by
        rw [trim_append_blanks hrs, trim_blanks_append hls]
    _ = trim cs := by rw [← hcs]

theorem trim_trimRight (cs : List Char) : trim (trimRight cs) = trim cs := by
  obtain ⟨rs, hrs, hcs⟩ := exists_trimRight cs
  calc trim (trimRight cs) = trim (trimRight cs ++ rs) := (trim_append_blanks hrs _).symm
    _ = trim cs := by rw [← hcs]

theorem trim_cons_blank (h : isBlank c = true) (cs : List Char) : trim (c :: cs) = trim cs := by
  rw [trim, trim, trimLeft, List.dropWhile_cons_of_pos h]
  rfl

theorem trim_cons_of_not_blank (h : isBlank c = false) (cs : List Char) :
    trim (c :: cs) = c :: trimRight cs := by
  rw [trim, trimLeft_cons_of_not_blank h]
  exact trimRight_append_of_not_blank h [] cs

theorem mem_of_mem_trim (h : c ∈ trim cs) : c ∈ cs := by
  obtain ⟨ls, rs, _, _, hcs⟩ := exists_trim cs
  rw [hcs]
  simp [h]

theorem not_blank_of_trim_eq_cons (h : trim cs = c :: rest) : isBlank c = false := by
  by_contra hblank
  have hrest : trim rest = c :: rest := by
    rw [← trim_cons_blank (by simpa using hblank) rest, ← h, trim_trim]
  obtain ⟨ls, rs, _, _, hsplit⟩ := exists_trim rest
  have hlength := congrArg List.length hsplit
  simp only [hrest, List.length_append, List.length_cons] at hlength
  omega

theorem trim_append_cons (h : trim pre = pre) (hmark : isBlank mark = false)
    (rest : List Char) : trim (pre ++ mark :: rest) = pre ++ mark :: trimRight rest := by
  cases pre with
  | nil => exact trim_cons_of_not_blank hmark rest
  | cons c pre =>
    rw [List.cons_append, trim_cons_of_not_blank (not_blank_of_trim_eq_cons h),
      trimRight_append_of_not_blank hmark]
    rfl

theorem trimRight_append (h : trim cs = cs) (hne : cs ≠ []) (pre : List Char) :
    trimRight (pre ++ cs) = pre ++ cs := by
  cases cs with
  | nil => exact absurd rfl hne
  | cons c rest =>
    have hc := not_blank_of_trim_eq_cons h
    rw [trim_cons_of_not_blank hc] at h
    rw [trimRight_append_of_not_blank hc, h]

end Trim

section Cut
variable {sep : Char} {cs before after : List Char}

theorem cutAt_append_cons (h : sep ∉ before) (after : List Char) :
    cutAt sep (before ++ sep :: after) = some (before, after) := by
  induction before with
  | nil => simp [cutAt]
  | cons c before ih =>
    rw [List.mem_cons, not_or] at h
    simp [cutAt, Ne.symm h.1, ih h.2]

theorem not_mem_append_cons {front rest : List Char} {c mark : Char} (hfront : c ∉ front)
    (hmark : c ≠ mark) (hrest : c ∉ rest) : c ∉ front ++ mark :: rest := by
  rw [List.mem_append, List.mem_cons, not_or, not_or]
  exact ⟨hfront, hmark, hrest⟩

theorem not_mem_of_cutAt (h : cutAt sep cs = some (before, after)) : sep ∉ before := by
  induction cs generalizing before with
  | nil => simp [cutAt] at h
  | cons c rest ih =>
    by_cases hc : c = sep
    · simp only [cutAt, hc, if_true, Option.some.injEq, Prod.mk.injEq] at h
      simp [← h.1]
    · simp only [cutAt, hc, if_false, Option.map_eq_some_iff, Prod.mk.injEq] at h
      obtain ⟨⟨b, a⟩, hb, rfl, rfl⟩ := h
      simp [ih hb, Ne.symm hc]

theorem dropLast?_eq_some_iff {c : Char} {inner : List Char} :
    dropLast? c cs = some inner ↔ cs = inner ++ [c] := by
  unfold dropLast?
  constructor
  · intro h
    split at h
    · rename_i hlast
      rw [← Option.some.inj h]
      exact (List.dropLast_append_getLast? c hlast).symm
    · simp at h
  · rintro rfl
    simp

theorem of_mem_splitOn {part : List Char} (h : part ∈ cs.splitOn sep) :
    sep ∉ part ∧ ∀ c ∈ part, c ∈ cs := by
  induction cs generalizing part with
  | nil =>
    rw [List.splitOn_nil, List.mem_singleton] at h
    simp [h]
  | cons c rest ih =>
    rw [List.splitOn_cons_eq_if_modifyHead] at h
    split at h
    · rcases List.mem_cons.mp h with rfl | h
      · simp
      · obtain ⟨hsep, hmem⟩ := ih h
        exact ⟨hsep, fun d hd => List.mem_cons_of_mem c (hmem d hd)⟩
    · rename_i hc
      have hne : sep ≠ c := fun heq => hc (by simp [heq])
      cases hparts : rest.splitOn sep with
      | nil => simp [hparts] at h
      | cons first more =>
        rw [hparts] at h ih
        rcases List.mem_cons.mp h with rfl | h
        · obtain ⟨hsep, hmem⟩ := ih List.mem_cons_self
          refine ⟨?_, ?_⟩
          · rw [List.mem_cons, not_or]
            exact ⟨hne, hsep⟩
          · intro d hd
            rcases List.mem_cons.mp hd with rfl | hd
            · exact List.mem_cons_self
            · exact List.mem_cons_of_mem c (hmem d hd)
        · obtain ⟨hsep, hmem⟩ := ih (List.mem_cons_of_mem first h)
          exact ⟨hsep, fun d hd => List.mem_cons_of_mem c (hmem d hd)⟩

end Cut

section Lines
variable {c : Char} {line rest : List Char}

theorem lines_cons (hfeed : c ≠ '\n') (hreturn : c ≠ '\r' ∨ ∀ more, rest ≠ '\n' :: more) :
    lines (c :: rest) = (c :: (lines rest).headD []) :: (lines rest).tail := by
  have hpair : ∀ more, c = '\r' → rest = '\n' :: more → False := by
    intro more hc hrest
    exact hreturn.elim (· hc) (· more hrest)
  rw [lines.eq_4 _ _ hfeed hpair]
  cases lines rest <;> rfl

theorem not_mem_newline {cs : List Char} (h : line ∈ lines cs) : '\n' ∉ line := by
  induction cs using lines.induct generalizing line with
  | case1 => simp [lines] at h
  | case2 rest ih =>
    rw [lines] at h
    rcases List.mem_cons.mp h with rfl | h
    · simp
    · exact ih h
  | case3 rest ih =>
    rw [lines] at h
    rcases List.mem_cons.mp h with rfl | h
    · simp
    · exact ih h
  | case4 c rest hfeed hreturn hrest ih =>
    rw [lines.eq_4 _ _ hfeed hreturn, hrest, List.mem_singleton] at h
    rw [h, List.mem_singleton]
    exact fun hc => hfeed hc.symm
  | case5 c rest hfeed hreturn first more hrest ih =>
    rw [lines.eq_4 _ _ hfeed hreturn, hrest] at h
    rw [hrest] at ih
    rcases List.mem_cons.mp h with rfl | h
    · rw [List.mem_cons, not_or]
      exact ⟨fun hc => hfeed hc.symm, ih List.mem_cons_self⟩
    · exact ih (List.mem_cons_of_mem _ h)

/-- Of a line only a carriage return at its end is lost. -/
theorem lines_append_newline (h : '\n' ∉ line) (rest : List Char) :
    ∃ kept, lines (line ++ '\n' :: rest) = kept :: lines rest ∧
      (kept = line ∨ line = kept ++ ['\r']) := by
  induction line with
  | nil => exact ⟨[], by simp [lines], .inl rfl⟩
  | cons c line ih =>
    rw [List.mem_cons, not_or] at h
    by_cases hend : c = '\r' ∧ line = []
    · obtain ⟨rfl, rfl⟩ := hend
      exact ⟨[], by simp [lines], .inr rfl⟩
    · obtain ⟨kept, hlines, hkept⟩ := ih h.2
      have hreturn : c ≠ '\r' ∨ ∀ more, line ++ '\n' :: rest ≠ '\n' :: more := by
        by_cases hc : c = '\r'
        · right
          intro more hmore
          cases line with
          | nil => exact hend ⟨hc, rfl⟩
          | cons d line =>
            have hd : d = '\n' := (List.cons.inj hmore).1
            exact h.2 (hd ▸ List.mem_cons_self)
        · exact .inl hc
      refine ⟨c :: kept, ?_, ?_⟩
      · rw [List.cons_append, lines_cons (Ne.symm h.1) hreturn, hlines]
        rfl
      · rcases hkept with rfl | rfl
        · exact .inl rfl
        · exact .inr rfl

theorem lines_of_not_mem_newline (h : '\n' ∉ line) (hne : line ≠ []) : lines line = [line] := by
  induction line with
  | nil => exact absurd rfl hne
  | cons c line ih =>
    rw [List.mem_cons, not_or] at h
    have hreturn : ∀ more, line ≠ '\n' :: more := by
      rintro more rfl
      exact h.2 List.mem_cons_self
    rw [lines_cons (Ne.symm h.1) (.inr hreturn)]
    cases line with
    | nil => rfl
    | cons d line => rw [ih h.2 (by simp)]; rfl

/-- The lines of a text are those that it was put together from, but for blanks at their ends. -/
theorem trim_lines_intercalate {parts : List (List Char)}
    (h : ∀ part ∈ parts, '\n' ∉ part ∧ part ≠ []) :
    (lines (['\n'].intercalate parts)).map trim = parts.map trim := by
  have hreturn : ∀ c ∈ ['\r'], isBlank c = true := by
    intro c hc
    rw [List.mem_singleton.mp hc]
    rfl
  induction parts with
  | nil => rfl
  | cons part parts ih =>
    obtain ⟨hpart, hparts⟩ := List.forall_mem_cons.mp h
    cases parts with
    | nil => rw [List.intercalate_singleton, lines_of_not_mem_newline hpart.1 hpart.2]
    | cons next parts =>
      obtain ⟨kept, hlines, hkept⟩ :=
        lines_append_newline hpart.1 (['\n'].intercalate (next :: parts))
      have htrim : trim kept = trim part := by
        rcases hkept with rfl | rfl
        · rfl
        · exact (trim_append_blanks hreturn kept).symm
      rw [List.intercalate_cons_cons, List.append_assoc, List.singleton_append, hlines,
        List.map_cons, ih hparts, htrim]
      rfl

/-- No blank stands at the end of a text without blanks at its ends. -/
theorem ne_append_blank (h : trim line = line) (hc : isBlank c = true) (kept : List Char) :
    line ≠ kept ++ [c] := by
  intro hline
  have hkept : trim kept = kept ++ [c] := by
    rw [← trim_append_blanks (List.forall_mem_singleton.mpr hc) kept, ← hline, h]
  obtain ⟨ls, rs, _, _, hsplit⟩ := exists_trim kept
  have hlength := congrArg List.length hsplit
  simp only [hkept, List.length_append, List.length_singleton] at hlength
  omega

/-- Lines without blanks at their ends are the lines of the text that is put together from them. -/
theorem lines_intercalate {parts : List (List Char)}
    (h : ∀ part ∈ parts, '\n' ∉ part ∧ part ≠ [] ∧ trim part = part) :
    lines (['\n'].intercalate parts) = parts := by
  induction parts with
  | nil => rfl
  | cons part parts ih =>
    obtain ⟨⟨hfeed, hne, htrim⟩, hparts⟩ := List.forall_mem_cons.mp h
    cases parts with
    | nil => rw [List.intercalate_singleton, lines_of_not_mem_newline hfeed hne]
    | cons next parts =>
      obtain ⟨kept, hlines, hkept⟩ :=
        lines_append_newline hfeed (['\n'].intercalate (next :: parts))
      obtain rfl := hkept.resolve_right (ne_append_blank htrim rfl kept)
      rw [List.intercalate_cons_cons, List.append_assoc, List.singleton_append, hlines, ih hparts]

end Lines

end Fabula.Text

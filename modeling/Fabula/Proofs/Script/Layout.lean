import Fabula.Proofs.Script.Placed
import Fabula.Proofs.Text.Trim

/-!
# Layout

Blank lines and the blanks at the ends of lines do not count. A text without them is compiled as
the text with them is, but that the lines have other numbers: those of the warnings and that of an
error are the numbers of the lines that the remaining ones came from.
-/

namespace Fabula.Script

/-- The lines that are not blank, without the blanks at their ends. -/
def tidy (raws : List (List Char)) : List (List Char) :=
  (raws.map Text.trim).filter fun line => !line.isEmpty

/-- The text without blank lines and without blanks at the ends of lines. -/
def tidied (text : String) : String :=
  String.ofList (['\n'].intercalate (tidy (Text.lines text.toList)))

/-- The numbers of the lines that are not blank. The first line has the given number. -/
def kept : Nat → List (List Char) → List Nat
  | _, [] => []
  | number, raw :: rest =>
    if Text.trim raw = [] then kept (number + 1) rest else number :: kept (number + 1) rest

/-- The number of the line that a line of the tidied text came from. -/
def origin (text : String) (n : Nat) : Nat := (kept 1 (Text.lines text.toList))[n - 1]?.getD 0

/-- Lines from number `m` on become lines from number `n` on: blank ones are left out, the others
trimmed, and `f` finds the old number of a line. -/
inductive Laid (f : Nat → Nat) : Nat → List (List Char) → Nat → List (List Char) → Prop
  | nil {m n : Nat} : Laid f m [] n []
  | blank {m n : Nat} {raw : List Char} {raws lines : List (List Char)} : Text.trim raw = [] →
      Laid f (m + 1) raws n lines → Laid f m (raw :: raws) n lines
  | line {m n : Nat} {raw : List Char} {raws lines : List (List Char)} : Text.trim raw ≠ [] →
      f n = m → Laid f (m + 1) raws (n + 1) lines →
      Laid f m (raw :: raws) n (Text.trim raw :: lines)

section
variable {f : Nat → Nat} {m n : Nat} {raw : List Char} {raws lines : List (List Char)}

theorem laid_tidy (h : ∀ k i, (kept m raws)[i]? = some k → f (n + i) = k) :
    Laid f m raws n (tidy raws) := by
  induction raws generalizing m n with
  | nil => exact .nil
  | cons raw rest ih =>
    by_cases hblank : Text.trim raw = []
    · have htidy : tidy (raw :: rest) = tidy rest := by
        rw [tidy, List.map_cons, hblank]
        rfl
      rw [htidy]
      rw [kept, if_pos hblank] at h
      exact .blank hblank (ih h)
    · have htidy : tidy (raw :: rest) = Text.trim raw :: tidy rest := by
        rw [tidy, List.map_cons, List.filter_cons_of_pos (by simpa using hblank)]
        rfl
      rw [htidy]
      rw [kept, if_neg hblank] at h
      refine .line hblank (h m 0 rfl) (ih fun k i hi => ?_)
      have hnext : n + 1 + i = n + (i + 1) := by omega
      rw [hnext]
      exact h k (i + 1) hi

theorem lines_tidied (text : String) :
    Text.lines (tidied text).toList = tidy (Text.lines text.toList) := by
  rw [tidied, String.toList_ofList]
  refine Text.lines_intercalate fun part hpart => ?_
  obtain ⟨hmem, hne⟩ := List.mem_filter.mp hpart
  obtain ⟨raw, hraw, rfl⟩ := List.mem_map.mp hmem
  refine ⟨fun hfeed => Text.not_mem_newline hraw (Text.mem_of_mem_trim hfeed), ?_,
    Text.trim_trim raw⟩
  rintro hnil
  rw [hnil] at hne
  cases hne

theorem laid_tidied (text : String) :
    Laid (origin text) 1 (Text.lines text.toList) 1 (Text.lines (tidied text).toList) := by
  rw [lines_tidied]
  refine laid_tidy fun k i hi => ?_
  rw [origin, Nat.add_sub_cancel_left, hi]
  rfl

def Diagnostic.relocate (f : Nat → Nat) (d : Diagnostic) : Diagnostic := { d with line := f d.line }

def CompileError.relocate (f : Nat → Nat) (e : CompileError) : CompileError :=
  { e with line := f e.line }

def Entry.relocate (f : Nat → Nat) (e : Entry) : Entry := { e with line := f e.line }

theorem Gist.takeLine_of_blank (h : Text.trim raw = []) (g : Gist) : g.takeLine raw = .ok g := by
  rw [takeLine, h]
  rfl

theorem Gist.takeLine_trim (g : Gist) (raw : List Char) :
    g.takeLine (Text.trim raw) = g.takeLine raw := by
  rw [takeLine, takeLine, Text.trim_trim]

theorem said_trim (raw : List Char) : said (Text.trim raw) = said raw := by
  rw [said, said, Text.trim_trim]

namespace Laid

theorem takeLines (h : Laid f m raws n lines) (g : Gist) :
    g.takeLines m raws = (g.takeLines n lines).mapError (CompileError.relocate f) := by
  induction h generalizing g with
  | nil => rfl
  | blank hblank _ ih => rw [Gist.takeLines, Gist.takeLine_of_blank hblank, ← ih g]
  | @line m n raw raws lines _ hline _ ih =>
    subst hline
    rw [Gist.takeLines, Gist.takeLines, Gist.takeLine_trim]
    cases g.takeLine raw with
    | ok taken => exact ih taken
    | error kind => rfl

theorem remarksAll (h : Laid f m raws n lines) (g : Gist) :
    g.remarksAll m raws = (g.remarksAll n lines).map (Diagnostic.relocate f) := by
  induction h generalizing g with
  | nil => rfl
  | blank hblank _ ih =>
    rw [Gist.remarksAll, Gist.takeLine_of_blank hblank, hblank, ← ih g]
    rfl
  | @line m n raw raws lines _ hline _ ih =>
    subst hline
    rw [Gist.remarksAll, Gist.remarksAll, Gist.takeLine_trim, Text.trim_trim, List.map_append,
      List.map_map]
    cases g.takeLine raw with
    | ok taken =>
      dsimp only
      rw [ih taken]
      rfl
    | error kind => rfl

theorem places (h : Laid f m raws n lines) :
    Script.places m raws = (Script.places n lines).map f := by
  induction h with
  | nil => rfl
  | blank hblank _ ih =>
    rw [← ih, Script.places, placed, said_of_blank hblank]
    rfl
  | @line m n raw raws lines _ hline _ ih =>
    subst hline
    have hmap : ((said raw).map (f n, ·)).toList.map Prod.fst =
        (((said raw).map (n, ·)).toList.map Prod.fst).map f := by
      cases said raw <;> rfl
    rw [Script.places, placed, List.map_append, hmap, Script.places, placed, said_trim,
      List.map_append, List.map_append]
    exact congrArg _ ih

end Laid

theorem unclosed_relocate (f : Nat → Nat) (source : String) (entries : List Entry) :
    unclosed source (entries.map (Entry.relocate f)) =
      (unclosed source entries).map (Diagnostic.relocate f) := by
  rw [unclosed, unclosed, List.filter_map, List.map_map, List.map_map]
  rfl

end

end Script

/-- The script with its warnings at other lines. -/
def Script.relocate (f : Nat → Nat) (s : Script) : Script :=
  { s with warnings := s.warnings.map (Script.Diagnostic.relocate f) }

namespace Script

/-- The same outcome of a compilation, with its warnings or its error at other lines. -/
def relocated (f : Nat → Nat) : Except CompileError Script → Except CompileError Script
  | .ok s => .ok (s.relocate f)
  | .error e => .error (e.relocate f)

theorem Laid.script {f : Nat → Nat} {raws lines : List (List Char)} (h : Laid f 1 raws 1 lines)
    (g : Gist) : g.script raws = (g.script lines).relocate f := by
  refine eq_of_gist rfl ?_
  have hentries : List.zipWith Entry.mk ((Script.places 1 lines).map f) g.sentences =
      (List.zipWith Entry.mk (Script.places 1 lines) g.sentences).map (Entry.relocate f) := by
    rw [List.zipWith_map_left, List.map_zipWith]
    rfl
  rw [Gist.script, Script.relocate, Gist.script, List.map_append, h.remarksAll, h.places,
    hentries, unclosed_relocate]

theorem Laid.compile {f : Nat → Nat} {text other : String}
    (h : Laid f 1 (Text.lines text.toList) 1 (Text.lines other.toList)) (name : String) :
    Compiler.standard.compile name text = relocated f (Compiler.standard.compile name other) := by
  rw [Compiler.compile_eq, Compiler.compile_eq, h.takeLines]
  cases Gist.takeLines 1 (Text.lines other.toList) ⟨name, [], [], []⟩ with
  | error e => rfl
  | ok g => exact congrArg Except.ok (h.script g)

/-- A text is compiled as the tidied text is, its warnings and its error at the lines that those of
the tidied text came from. -/
theorem layout_does_not_count (name text : String) :
    Laid (origin text) 1 (Text.lines text.toList) 1 (Text.lines (tidied text).toList) ∧
      Compiler.standard.compile name text =
        relocated (origin text) (Compiler.standard.compile name (tidied text)) :=
  ⟨laid_tidied text, (laid_tidied text).compile name⟩

end Script

end Fabula
